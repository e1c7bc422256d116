import SecureBoot.Proofs.Chain
import SecureBoot.Proofs.Grammar

/-!
The keys that are read against the keys that are built. Building a key demands coordinates of the
size of its curve, and building a multi-root entry demands keys in the multi-root layout. Reading
measures a single-root key by the sum of the two sizes in its header only, and a multi-root entry
takes keys in either layout; so what is read has to be looked at for both.
-/

namespace SecureBoot

namespace PublicKey

variable {key : PublicKey} {format : KeyFormat} {curve : Curve} {x y bytes : Bytes}
  {options : KeyOptions}

/-- Both coordinates have the size of the curve that the key names. -/
def Proportioned (key : PublicKey) : Prop :=
  ∃ curve x y, key.curve? = .ok (some curve) ∧ key.x = .ok x ∧ key.y = .ok y ∧
    x.length = curve.coordinateSize ∧ y.length = curve.coordinateSize

/-- Some coordinates and header words make the key. -/
def Built (key : PublicKey) : Prop :=
  ∃ curve x y options, ofCoordinates key.format curve x y options = .ok key

/-- The two words that the single-root layout has for the sizes of X and Y are those of the curve
that the record names. -/
def Balanced (record : Bytes) : Prop :=
  ∀ curve, Curve.ofMagic? (Bytes.wordAt record curveOffset) = some curve →
    (Bytes.wordAt record xSizeOffset).toNat = curve.coordinateSize ∧
      (Bytes.wordAt record ySizeOffset).toNat = curve.coordinateSize

/-- A valid key has a curve and both coordinates, as long as its layout says. -/
theorem coordinates_exist (valid : key.validate = .ok ()) (filled : key.isEmpty = false) :
    ∃ curve x y, key.curve? = .ok (some curve) ∧ key.x = .ok x ∧ key.y = .ok y ∧
      key.xSize = .ok x.length ∧ key.ySize = .ok y.length := by
  rw [validate, filled] at valid
  simp only [Bool.false_eq_true, if_false, bind_eq_ok_iff, require_eq_ok_iff,
    exists_unit_iff] at valid
  obtain ⟨found, named, known, -, x, sizeX, y, sizeY, whole⟩ := valid
  obtain ⟨curve, rfl⟩ := Option.isSome_iff_exists.mp known
  have first : Size.publicKeyHeader + x ≤ key.buffer.bytes.length :=
    Nat.le_trans (Nat.le_add_right _ _) (Nat.le_of_eq whole)
  have second : Size.publicKeyHeader + x + y ≤ key.buffer.bytes.length := Nat.le_of_eq whole
  refine ⟨curve, Bytes.slice key.buffer.bytes Size.publicKeyHeader x,
    Bytes.slice key.buffer.bytes (Size.publicKeyHeader + x) y, named, ?_, ?_, ?_, ?_⟩
  · rw [PublicKey.x, sizeX]
    exact Buffer.getRaw_eq_ok_iff.mpr ⟨first, rfl⟩
  · rw [PublicKey.y, sizeX, bind_of_ok rfl, sizeY]
    exact Buffer.getRaw_eq_ok_iff.mpr ⟨second, rfl⟩
  · rw [Bytes.length_slice first, sizeX]
  · rw [Bytes.length_slice second, sizeY]

/-- The coordinates of a valid key have the size of its curve unless the sizes that a single-root
header stores are others. -/
theorem proportioned_iff (valid : key.validate = .ok ()) (filled : key.isEmpty = false) :
    key.Proportioned ↔ (key.format = .singleRoot → Balanced key.buffer.bytes) := by
  obtain ⟨curve, x, y, named, storedX, storedY, sizeX, sizeY⟩ := coordinates_exist valid filled
  have proportioned : key.Proportioned ↔
      x.length = curve.coordinateSize ∧ y.length = curve.coordinateSize := by
    constructor
    · rintro ⟨_, _, _, namedToo, sameX, sameY, sized⟩
      rw [named] at namedToo
      rw [storedX] at sameX
      rw [storedY] at sameY
      cases namedToo
      cases sameX
      cases sameY
      exact sized
    · exact fun sized => ⟨curve, x, y, named, storedX, storedY, sized⟩
  have answered := named
  simp only [curve?, bind_eq_ok_iff, Buffer.getWord_eq_ok_iff, pure_eq_ok_iff] at named
  obtain ⟨_, ⟨-, rfl⟩, named⟩ := named
  rw [proportioned]
  cases layout : key.format with
  | singleRoot =>
    simp only [xSize, ySize, layout, bind_eq_ok_iff, Buffer.getWord_eq_ok_iff,
      pure_eq_ok_iff] at sizeX sizeY
    obtain ⟨_, ⟨-, rfl⟩, wordX⟩ := sizeX
    obtain ⟨_, ⟨-, rfl⟩, wordY⟩ := sizeY
    rw [← wordX, ← wordY]
    refine ⟨fun sized _ other namedToo => ?_, fun balanced => balanced rfl curve named⟩
    obtain rfl : curve = other := Option.some.inj (named.symm.trans namedToo)
    exact sized
  | multiRoot =>
    simp only [xSize, ySize, layout, curveSize, answered, bind_eq_ok_iff, Except.ok.injEq,
      exists_eq_left', pure_eq_ok_iff] at sizeX sizeY
    refine iff_of_true ⟨sizeX.symm, sizeY.symm⟩ ?_
    intro single
    cases single

/-- The bytes of a key as it is built. -/
def recordOf (format : KeyFormat) (curve : Curve) (x y : Bytes) (options : KeyOptions) : Bytes :=
  Bytes.ofWord format.magic ++
    (Bytes.ofWord (layoutWords format curve.coordinateSize options).1 ++
      (Bytes.ofWord (layoutWords format curve.coordinateSize options).2 ++
        (Bytes.ofWord curve.magic ++ (Bytes.ofWord options.permission ++
          (Bytes.ofWord options.cancelId ++ (x ++ y))))))

theorem length_recordOf (sizedX : x.length = curve.coordinateSize)
    (sizedY : y.length = curve.coordinateSize) :
    (recordOf format curve x y options).length = Size.publicKeyHeader + 2 * curve.coordinateSize := by
  simp only [recordOf, List.length_append, Bytes.length_ofWord, sizedX, sizedY,
    Size.publicKeyHeader]
  omega

/-- An empty key that holds zeros. -/
private def cleared (format : KeyFormat) (size : Nat) : Buffer :=
  { (empty format).buffer with bytes := Bytes.zeros size }

private theorem cleared_setRaw (format : KeyFormat) (bytes : Bytes) :
    (cleared format bytes.length).setRaw bytes 0 = .ok (ofRecord format bytes).buffer := by
  have zeros : (cleared format bytes.length).bytes.length = bytes.length := Bytes.length_zeros _
  refine Buffer.setRaw_eq_ok_iff.mpr ⟨?_, ?_⟩
  · rw [Nat.zero_add]
    exact Nat.le_of_eq zeros.symm
  · rw [Bytes.splice, Nat.zero_add, List.drop_of_length_le (Nat.le_of_eq zeros)]
    simp [ofRecord, cleared]

private theorem reset_of_setRaw {headed : Buffer} {size : Nat} (small : size ≤ Size.publicKeyLimit)
    (magic : (cleared format size).setRaw (Bytes.ofWord format.magic) 0 = .ok headed) :
    Buffer.reset size (empty format).buffer = .ok () headed := by
  have stored : Buffer.updateMagic (cleared format size) = .ok () headed :=
    Edit.bind_of_ok (Edit.change_of_ok magic)
  simp only [Buffer.reset, Edit.bind_eq_ok_iff, Edit.ask_eq_ok_iff, checkBound_eq_ok_iff,
    Edit.modify_eq_ok_iff]
  refine ⟨(), _, ⟨fun most limited => ?_, rfl⟩, (), cleared format size, rfl, stored⟩
  obtain rfl := Option.some.inj limited
  exact small

/-- Coordinates of the right sizes are written behind the header words. -/
theorem fillIn_of_sized (sizedX : x.length = curve.coordinateSize)
    (sizedY : y.length = curve.coordinateSize) :
    fillIn format curve x y options (empty format).buffer =
      .ok () (ofRecord format (recordOf format curve x y options)).buffer := by
  have meets (offset : Nat) (word : UInt32) : offset + (Bytes.ofWord word).length = offset + 4 :=
    congrArg (offset + ·) (Bytes.length_ofWord word)
  -- All the writes are one write of the whole record, taken apart word by word.
  have whole := cleared_setRaw format (recordOf format curve x y options)
  rw [length_recordOf sizedX sizedY] at whole
  obtain ⟨_, magic, rest⟩ := (Buffer.setRaw_setRaw_iff (meets 0 _)).mpr whole
  obtain ⟨_, first, rest⟩ := (Buffer.setRaw_setRaw_iff (meets 4 _)).mpr rest
  obtain ⟨_, second, rest⟩ := (Buffer.setRaw_setRaw_iff (meets 8 _)).mpr rest
  obtain ⟨_, third, rest⟩ := (Buffer.setRaw_setRaw_iff (meets 12 _)).mpr rest
  obtain ⟨_, fourth, rest⟩ := (Buffer.setRaw_setRaw_iff (meets 16 _)).mpr rest
  obtain ⟨_, fifth, rest⟩ := (Buffer.setRaw_setRaw_iff (meets 20 _)).mpr rest
  obtain ⟨_, sixth, last⟩ := (Buffer.setRaw_setRaw_iff (congrArg (24 + ·) sizedX)).mpr rest
  have small : Size.publicKeyHeader + 2 * curve.coordinateSize ≤ Size.publicKeyLimit := by
    cases curve <;> decide
  calc fillIn format curve x y options (empty format).buffer
      = _ := Edit.bind_of_ok (reset_of_setRaw small magic)
    _ = _ := Edit.bind_of_ok (Edit.change_of_ok first)
    _ = _ := Edit.bind_of_ok (Edit.change_of_ok second)
    _ = _ := Edit.bind_of_ok (Edit.change_of_ok third)
    _ = _ := Edit.bind_of_ok (Edit.change_of_ok fourth)
    _ = _ := Edit.bind_of_ok (Edit.change_of_ok fifth)
    _ = _ := Edit.bind_of_ok (Edit.change_of_ok sixth)
    _ = _ := Edit.change_of_ok last

/-- Coordinates make a key exactly if both have the size of the curve. -/
theorem ofCoordinates_eq_ok_iff :
    ofCoordinates format curve x y options = .ok key ↔
      (x.length = curve.coordinateSize ∧ y.length = curve.coordinateSize) ∧
        ofRecord format (recordOf format curve x y options) = key := by
  simp only [ofCoordinates, bind_eq_ok_iff, require_eq_ok_iff, exists_unit_iff,
    Edit.result_eq_ok_iff, pure_eq_ok_iff]
  refine and_congr_right fun sized => ?_
  rw [fillIn_of_sized sized.1 sized.2]
  constructor
  · rintro ⟨_, ran, rfl⟩
    obtain rfl := EStateM.Result.ok.inj ran |>.2
    rfl
  · rintro rfl
    exact ⟨_, rfl, rfl⟩

/-- A record as it is built stores the sizes of its curve. -/
theorem balanced_recordOf (curve : Curve) (x y : Bytes) (options : KeyOptions) :
    Balanced (recordOf .singleRoot curve x y options) := by
  have size : (UInt32.ofNat curve.coordinateSize).toNat = curve.coordinateSize := by
    cases curve <;> decide
  have named : Bytes.wordAt (recordOf .singleRoot curve x y options) curveOffset = curve.magic := by
    rw [recordOf, show curveOffset = 0 + 4 + 4 + 4 from rfl]
    simp only [Bytes.wordAt_ofWord_append_add, Bytes.wordAt_ofWord_append]
  have sizeX : Bytes.wordAt (recordOf .singleRoot curve x y options) xSizeOffset =
      UInt32.ofNat curve.coordinateSize := by
    rw [recordOf, show xSizeOffset = 0 + 4 from rfl]
    simp only [Bytes.wordAt_ofWord_append_add, Bytes.wordAt_ofWord_append, layoutWords]
  have sizeY : Bytes.wordAt (recordOf .singleRoot curve x y options) ySizeOffset =
      UInt32.ofNat curve.coordinateSize := by
    rw [recordOf, show ySizeOffset = 0 + 4 + 4 from rfl]
    simp only [Bytes.wordAt_ofWord_append_add, Bytes.wordAt_ofWord_append, layoutWords]
  intro other found
  rw [named, Curve.ofMagic?_magic] at found
  obtain rfl := Option.some.inj found
  rw [sizeX, sizeY]
  exact ⟨size, size⟩

/-- The words that a record stores, as options to build it with. -/
def optionsOf (record : Bytes) : KeyOptions where
  fuseEnable := Bytes.wordAt record fuseEnableOffset
  contribution := some (Bytes.wordAt record contributionOffset)
  permission := Bytes.wordAt record permissionOffset
  cancelId := Bytes.wordAt record cancelIdOffset

/-- A record is its header words and its coordinates. -/
theorem recordOf_eq (leads : Bytes.wordAt bytes 0 = format.magic)
    (named : Curve.ofMagic? (Bytes.wordAt bytes curveOffset) = some curve)
    (whole : bytes.length = Size.publicKeyHeader + 2 * curve.coordinateSize)
    (balanced : format = .singleRoot → Balanced bytes) :
    recordOf format curve (Bytes.slice bytes Size.publicKeyHeader curve.coordinateSize)
      (Bytes.slice bytes (Size.publicKeyHeader + curve.coordinateSize) curve.coordinateSize)
      (optionsOf bytes) = bytes := by
  have words : layoutWords format curve.coordinateSize (optionsOf bytes) =
      (Bytes.wordAt bytes xSizeOffset, Bytes.wordAt bytes ySizeOffset) := by
    cases format with
    | singleRoot =>
      obtain ⟨sizeX, sizeY⟩ := balanced rfl curve named
      have first : UInt32.ofNat curve.coordinateSize = Bytes.wordAt bytes xSizeOffset := by
        rw [← sizeX, UInt32.ofNat_toNat]
      have second : UInt32.ofNat curve.coordinateSize = Bytes.wordAt bytes ySizeOffset := by
        rw [← sizeY, UInt32.ofNat_toNat]
      exact Prod.ext first second
    | multiRoot => rfl
  have header : 24 ≤ bytes.length := by
    rw [whole]
    exact Nat.le_add_right _ _
  have word (offset : Nat) (within : offset + 4 ≤ 24) :
      Bytes.ofWord (Bytes.wordAt bytes offset) = Bytes.slice bytes offset 4 :=
    Bytes.ofWord_wordAt (Nat.le_trans within header)
  rw [recordOf, words, ← leads, ← Curve.magic_of_ofMagic? named, optionsOf, word 0 (by decide),
    word xSizeOffset (by decide), word ySizeOffset (by decide), word curveOffset (by decide),
    word permissionOffset (by decide), word cancelIdOffset (by decide)]
  calc Bytes.slice bytes 0 4 ++ (Bytes.slice bytes (0 + 4) 4 ++ (Bytes.slice bytes (0 + 4 + 4) 4 ++
        (Bytes.slice bytes (0 + 4 + 4 + 4) 4 ++ (Bytes.slice bytes (0 + 4 + 4 + 4 + 4) 4 ++
          (Bytes.slice bytes (0 + 4 + 4 + 4 + 4 + 4) 4 ++
            (Bytes.slice bytes (0 + 4 + 4 + 4 + 4 + 4 + 4) curve.coordinateSize ++
              Bytes.slice bytes (0 + 4 + 4 + 4 + 4 + 4 + 4 + curve.coordinateSize)
                curve.coordinateSize))))))
      = Bytes.slice bytes 0 bytes.length := by
        simp only [Bytes.slice_append_slice]
        rw [whole, Size.publicKeyHeader]
        congr 1
        omega
    _ = bytes := Bytes.slice_zero_length bytes

/-- A valid key is one that can be built exactly if its coordinates have the size of its curve. -/
theorem built_iff (standard : key.Standard) (valid : key.validate = .ok ())
    (filled : key.isEmpty = false) : key.Built ↔ key.Proportioned := by
  rw [proportioned_iff valid filled]
  constructor
  · rintro ⟨curve, x, y, options, ran⟩ single
    obtain ⟨-, same⟩ := ofCoordinates_eq_ok_iff.mp ran
    rw [← same, single]
    exact balanced_recordOf curve x y options
  · intro balanced
    have record := record_of_valid standard valid filled
    obtain ⟨curve, named, measured⟩ := record.measured
    have whole : key.buffer.bytes.length = Size.publicKeyHeader + 2 * curve.coordinateSize := by
      rw [measured]
      cases layout : key.format with
      | singleRoot =>
        obtain ⟨sizeX, sizeY⟩ := balanced layout curve named
        rw [coordinateBytes, sizeX, sizeY, Nat.two_mul]
      | multiRoot => rfl
    have rebuilt := recordOf_eq record.magic named whole balanced
    have same : ofRecord key.format key.buffer.bytes = key :=
      congrArg (PublicKey.mk · key.format) standard.layout.symm
    exact ⟨curve, _, _, optionsOf key.buffer.bytes, ofCoordinates_eq_ok_iff.mpr
      ⟨⟨Bytes.length_slice (by omega), Bytes.length_slice (by omega)⟩,
        (congrArg (ofRecord key.format) rebuilt).trans same⟩⟩

end PublicKey

namespace ChainEntry

variable {entry : ChainEntry} {stream left : Stream} {count : Nat}

theorem Arrives.keys_sound (arrives : Arrives stream count entry left) (steady : stream.Steady) :
    ∀ key ∈ entry.keys, key.Standard ∧ key.validate = .ok () ∧ key.isEmpty = false := by
  obtain ⟨-, -, valid, standard⟩ := arrives.sound steady
  obtain ⟨⟨-, validData, -⟩, -, -, kindValid⟩ := validate_eq_ok_iff.mp valid
  obtain ⟨filled, -⟩ := filled_of_validateKind kindValid
  intro key member
  obtain ⟨standardKey, validKey⟩ := EntryData.keys_sound standard.data validData key member
  exact ⟨standardKey, validKey, filled key member⟩

/-- The keys of an entry that arrives are records behind its header. -/
theorem Arrives.holds (arrives : Arrives stream count entry left) (steady : stream.Steady) :
    EntryData.Holds entry.kind
      (Bytes.slice stream.unread Size.entryHeader (Fragment.size entry.data))
      entry.data.keyRecords := by
  obtain ⟨advances, -, valid, standard⟩ := arrives.sound steady
  have whole : entry.header.bytes.length = Size.entryHeader := header_size standard.header valid
  obtain ⟨⟨-, validData, -⟩, -, -, kindValid⟩ := validate_eq_ok_iff.mp valid
  have complete := ((validateKind_eq_ok_iff standard.data validData).mp kindValid).1
  have block : Bytes.slice stream.unread Size.entryHeader (Fragment.size entry.data) =
      Fragment.toBytes entry.data := by
    rw [advances.unread, toBytes_eq, List.append_assoc, List.append_assoc, ← whole,
      Bytes.slice_append_right (Nat.le_refl _), Nat.sub_self, Bytes.slice_zero,
      List.take_left' (Fragment.Lawful.length_toBytes _)]
  rw [block]
  exact EntryData.holds_of_valid standard.data validData complete

/-- Of the keys in an entry that arrives, those in the multi-root layout can be built. All of them
can be built, and in a multi-root entry all have the multi-root layout, exactly if their records say
so: a single-root record stores the coordinate sizes of its curve, and the records of a multi-root
entry begin with the magic number of that layout. -/
theorem Arrives.keys_proportioned_iff (arrives : Arrives stream count entry left)
    (steady : stream.Steady) :
    (∀ key ∈ entry.keys, (key.Built ↔ key.Proportioned) ∧
        (key.format = .multiRoot → key.Proportioned)) ∧
      EntryData.Holds entry.kind
        (Bytes.slice stream.unread Size.entryHeader (Fragment.size entry.data))
        entry.data.keyRecords ∧
      ((∀ key ∈ entry.keys, key.Proportioned) ∧
          (entry.kind = .multiRoot → ∀ key ∈ entry.keys, key.format = .multiRoot) ↔
        ∀ record ∈ entry.data.keyRecords,
          (Bytes.wordAt record 0 = KeyFormat.singleRoot.magic → PublicKey.Balanced record) ∧
            (entry.kind = .multiRoot → Bytes.wordAt record 0 = KeyFormat.multiRoot.magic)) := by
  have sound := arrives.keys_sound steady
  have leads (key : PublicKey) (member : key ∈ entry.keys) (format : KeyFormat) :
      Bytes.wordAt key.buffer.bytes 0 = format.magic ↔ key.format = format := by
    obtain ⟨standard, valid, filled⟩ := sound key member
    rw [(PublicKey.record_of_valid standard valid filled).magic]
    exact KeyFormat.magic_inj
  have balanced (key : PublicKey) (member : key ∈ entry.keys) :
      key.Proportioned ↔ (Bytes.wordAt key.buffer.bytes 0 = KeyFormat.singleRoot.magic →
        PublicKey.Balanced key.buffer.bytes) := by
    obtain ⟨-, valid, filled⟩ := sound key member
    rw [PublicKey.proportioned_iff valid filled, leads key member]
  refine ⟨fun key member => ?_, arrives.holds steady, ?_⟩
  · obtain ⟨standard, valid, filled⟩ := sound key member
    refine ⟨PublicKey.built_iff standard valid filled, fun multi => ?_⟩
    rw [PublicKey.proportioned_iff valid filled, multi]
    intro single
    cases single
  · rw [EntryData.keyRecords, List.forall_mem_map]
    constructor
    · rintro ⟨proportioned, layouts⟩ key member
      exact ⟨(balanced key member).mp (proportioned key member),
        fun root => (leads key member _).mpr (layouts root key member)⟩
    · intro records
      exact ⟨fun key member => (balanced key member).mpr (records key member).1,
        fun root key member => (leads key member _).mp ((records key member).2 root)⟩

/-- A valid entry arrives from just its own bytes. -/
theorem arrives_ofBytes (standard : entry.Standard) (valid : entry.validate = .ok ()) :
    ∃ left, Arrives (Stream.ofBytes (Fragment.toBytes entry)) entry.size entry left :=
  arrives_of_valid standard valid (Stream.steady_ofBytes _)
    (by rw [Stream.unread_ofBytes, List.append_nil])

/-- An entry of a public key as it is built. -/
def plainKeyEntry : Except Failure ChainEntry := do
  publicKey (← SignatureChain.plainKey) .intel

/-- An entry of a key that was built arrives with the key, whose coordinates have the size of its
curve. -/
theorem keys_proportioned_iff_plainKey :
    ∃ entry left key, plainKeyEntry = .ok entry ∧ entry.keys = [key] ∧
      Arrives (Stream.ofBytes (Fragment.toBytes entry)) 224 entry left ∧
      (Stream.ofBytes (Fragment.toBytes entry)).Steady ∧ key.Proportioned ∧
      (Bytes.wordAt key.buffer.bytes 0 = KeyFormat.singleRoot.magic →
        PublicKey.Balanced key.buffer.bytes) := by
  have there : plainKeyEntry.toOption.map ChainEntry.size = some 224 := by decide +kernel
  obtain ⟨entry, built, sized⟩ := exists_of_map_eq_some there
  have made := built
  simp only [plainKeyEntry, bind_eq_ok_iff] at made
  obtain ⟨key, given, made⟩ := made
  obtain ⟨standardKey, single⟩ := PublicKey.standard_ofCoordinates given
  obtain ⟨standard, valid, data⟩ := standard_publicKey standardKey made
  obtain ⟨left, arrives⟩ := arrives_ofBytes standard valid
  rw [sized] at arrives
  have steady := Stream.steady_ofBytes (Fragment.toBytes entry)
  obtain ⟨each, -, conditions⟩ := arrives.keys_proportioned_iff steady
  have keyed : entry.keys = [key] := by
    rw [keys, data]
    rfl
  have member : key ∈ entry.keys := by simp [keyed]
  have again : key.Built := by
    rw [PublicKey.Built, single]
    exact ⟨.secp256r1, _, _, {}, given⟩
  have proportioned : key.Proportioned := (each key member).1.mp again
  have kinds : entry.kind = .publicKey := by
    rw [kind, data]
    rfl
  have records := conditions.mp ⟨by simpa [keyed] using proportioned, by simp [kinds]⟩
  exact ⟨entry, left, key, built, keyed, arrives, steady, proportioned,
    (records key.buffer.bytes (List.mem_map_of_mem member)).1⟩

/-- A record in the single-root layout that announces no coordinates. -/
def hollowRecord : Bytes :=
  Bytes.ofWord KeyFormat.singleRoot.magic ++ Bytes.zeros 8 ++ Bytes.ofWord Curve.secp384r1.magic ++
    Bytes.ofWord unsetWord ++ Bytes.ofWord unsetWord

/-- An entry of the public key that the record is. -/
def hollowEntry : Except Failure ChainEntry :=
  build (.publicKey (PublicKey.ofRecord .singleRoot hollowRecord)) [] .intel

/-- A multi-root entry of a key in the single-root layout. -/
def mixedEntry : Except Failure ChainEntry := do
  let key ← SignatureChain.plainKey
  let reserved ← EntryData.reservedFor (← EntryData.hashWordOf [key])
  build (.multiRoot reserved { EntryData.keySlots with items := [key] }) [] .intel

/-- A key without coordinates arrives on a curve that has 48 bytes for each, and a key in the
single-root layout arrives in a multi-root entry. -/
theorem keys_not_proportioned :
    (∃ entry left key, hollowEntry = .ok entry ∧
      Arrives (Stream.ofBytes (Fragment.toBytes entry)) 48 entry left ∧
        entry.keys = [key] ∧ key.curve? = .ok (some .secp384r1) ∧ key.x = .ok [] ∧ key.y = .ok [] ∧
          ¬key.Proportioned ∧ ¬key.Built) ∧
    ∃ entry left key, mixedEntry = .ok entry ∧
      Arrives (Stream.ofBytes (Fragment.toBytes entry)) 120 entry left ∧
        entry.kind = .multiRoot ∧ entry.keys = [key] ∧ key.format = .singleRoot := by
  constructor
  · have there : hollowEntry.toOption.map ChainEntry.size = some 48 := by decide +kernel
    obtain ⟨entry, built, sized⟩ := exists_of_map_eq_some there
    have record : PublicKey.Record .singleRoot hollowRecord :=
      ⟨by decide, by decide, .secp384r1, by decide, by decide⟩
    have standardData : (EntryData.publicKey (.ofRecord .singleRoot hollowRecord)).Standard :=
      record.standard
    obtain ⟨standard, valid, data⟩ := standard_build standardData built
    obtain ⟨left, arrives⟩ := arrives_ofBytes standard valid
    rw [sized] at arrives
    have unproportioned : ¬(PublicKey.ofRecord .singleRoot hollowRecord).Proportioned := by
      rw [PublicKey.proportioned_iff record.valid record.filled]
      intro balanced
      exact absurd (balanced rfl .secp384r1 (by decide)).1 (by decide)
    refine ⟨entry, left, _, built, arrives, by rw [keys, data]; rfl, by decide, by decide,
      by decide, unproportioned, ?_⟩
    rwa [PublicKey.built_iff record.standard record.valid record.filled]
  · have there : mixedEntry.toOption.map ChainEntry.size = some 120 := by decide +kernel
    obtain ⟨entry, built, sized⟩ := exists_of_map_eq_some there
    have made := built
    simp only [mixedEntry, bind_eq_ok_iff] at made
    obtain ⟨key, given, word, -, reserved, reserves, made⟩ := made
    obtain ⟨standardKey, single⟩ := PublicKey.standard_ofCoordinates given
    obtain ⟨follows, whole⟩ := reservedFor_eq_ok reserves
    have standardData : (EntryData.multiRoot reserved
        { EntryData.keySlots with items := [key] }).Standard :=
      ⟨follows, List.forall_mem_singleton.mpr standardKey, rfl, fun _ => whole⟩
    obtain ⟨standard, valid, data⟩ := standard_build standardData made
    obtain ⟨left, arrives⟩ := arrives_ofBytes standard valid
    rw [sized] at arrives
    exact ⟨entry, left, key, built, arrives, by rw [kind, data]; rfl, by rw [keys, data]; rfl,
      single⟩

end ChainEntry
end SecureBoot
