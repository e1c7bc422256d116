import SecureBoot.Chain.Descriptor
import SecureBoot.Proofs.TableUpdate

/-!
Signature descriptors in a stream. The sizes of header, table and checksum are fixed, so a valid
descriptor takes 4 KiB whatever follows it; refreshing gives it the table padding and the checksum
that reading gives back.
-/

namespace SecureBoot.SignatureDescriptor

variable {descriptor changed : SignatureDescriptor} {chain : SignatureChain} {hash rest : Bytes}
  {index : Nat} {answer : Unit}

instance : Composite.Lawful SignatureDescriptor where
  parts descriptor := by
    rw [show Composite.parts descriptor = [_, _, _] from rfl, List.forall_mem_cons,
      List.forall_mem_cons, List.forall_mem_singleton]
    exact ⟨Part.lawful_of descriptor.header fun header => { descriptor with header := header },
      Part.lawful_of descriptor.table fun table => { descriptor with table := table },
      Part.lawful_of descriptor.crc fun crc => { descriptor with crc := crc }⟩

instance : Fragment.Lawful SignatureDescriptor where
  length_toBytes := Composite.length_toBytes
  readBytes_sound := Composite.readBytes_sound
  readBytes_inside := Composite.readBytes_inside
  writeBytes_same := Composite.writeBytes_same

theorem toBytes_eq (descriptor : SignatureDescriptor) :
    Fragment.toBytes descriptor = descriptor.header.bytes ++
      (Fragment.toBytes descriptor.table ++ descriptor.crc.bytes) := by
  rw [show Fragment.toBytes descriptor = descriptor.header.bytes ++
    (Fragment.toBytes descriptor.table ++ (descriptor.crc.bytes ++ [])) from rfl, List.append_nil]

theorem size_eq (descriptor : SignatureDescriptor) :
    Composite.size descriptor = descriptor.header.size +
      (Composite.size descriptor.table + descriptor.crc.size) :=
  rfl

/-- The parts are laid out as those of a descriptor that is read, and a checksum comes only with a
complete header. -/
structure Standard (descriptor : SignatureDescriptor) : Prop where
  header : descriptor.header.Follows empty.header
  table : descriptor.table.Standard
  crc : descriptor.crc.Follows empty.crc
  complete : descriptor.crc.size = 0 ∨ descriptor.header.size = headerSize

/-- The header announces the size of the descriptor and the layout of its chains. -/
structure Announced (descriptor : SignatureDescriptor) : Prop where
  valid : descriptor.header.validate = .ok ()
  format : descriptor.format = .ok descriptor.table.format
  length : descriptor.header.getWord lengthOffset = .ok (UInt32.ofNat Size.signatureDescriptor)
  reserved : descriptor.header.getWord reservedOffset = .ok 0

/-- What the header announces stays true of another descriptor with this header and layout. -/
theorem Announced.congr {other : SignatureDescriptor} (announced : descriptor.Announced)
    (header : other.header = descriptor.header)
    (format : other.table.format = descriptor.table.format) : other.Announced where
  valid := by rw [header, announced.valid]
  format := by rw [SignatureDescriptor.format, header, format, ← announced.format,
    SignatureDescriptor.format]
  length := by rw [header, announced.length]
  reserved := by rw [header, announced.reserved]

theorem validate_eq_ok_iff :
    descriptor.validate = .ok answer ↔
      Composite.size descriptor = Size.signatureDescriptor ∧ descriptor.Announced ∧
        descriptor.table.validate = .ok () ∧
        ∃ crc, descriptor.computedCrc = .ok crc ∧ descriptor.storedCrc = .ok crc := by
  simp only [validate, bind_eq_ok_iff, exists_unit_iff, require_eq_ok_iff]
  constructor
  · rintro ⟨whole, header, format, shape, rfl, length, found, long, reserved, unused, rfl, table, crc,
      computed, _, stored, rfl⟩
    have word : length = UInt32.ofNat Size.signatureDescriptor := by
      apply UInt32.toNat_inj.mp
      rw [long]
      rfl
    exact ⟨whole, ⟨header, shape, word ▸ found, unused⟩, table, crc, computed, stored⟩
  · rintro ⟨whole, announced, table, crc, computed, stored⟩
    exact ⟨whole, announced.valid, _, announced.format, rfl, _, announced.length, rfl, _,
      announced.reserved, rfl, table, crc, computed, crc, stored, rfl⟩

/-- The parts beside the chains are laid out as those of a descriptor that is read, and refreshing
leaves the chains alone. -/
structure Steady (descriptor : SignatureDescriptor) : Prop where
  header : descriptor.header.Follows empty.header
  table : descriptor.table.Steady
  crc : descriptor.crc.Follows empty.crc
  complete : descriptor.crc.size = 0 ∨ descriptor.header.size = headerSize

theorem Standard.steady_of_chains (standard : descriptor.Standard)
    (each : ∀ chain ∈ descriptor.table.chains, chain.validate = .ok ()) : descriptor.Steady :=
  ⟨standard.header, standard.table.steady each, standard.crc, standard.complete⟩

theorem Standard.steady (standard : descriptor.Standard)
    (valid : descriptor.validate = .ok answer) : descriptor.Steady := by
  obtain ⟨-, -, table, -⟩ := validate_eq_ok_iff.mp valid
  obtain ⟨-, -, ⟨-, each, -⟩, -⟩ := ChainTable.validate_eq_ok_iff.mp table
  exact standard.steady_of_chains each

/-- The parts of a valid descriptor fill it. -/
theorem Steady.sizes (steady : descriptor.Steady) (valid : descriptor.validate = .ok answer) :
    descriptor.header.size = headerSize ∧ descriptor.table.limit = tableSize ∧
      Composite.size descriptor.table = tableSize ∧ descriptor.crc.size = crcSize := by
  obtain ⟨whole, -, table, crc, -, stored⟩ := validate_eq_ok_iff.mp valid
  obtain ⟨-, -, -, -, filled⟩ := ChainTable.validate_eq_ok_iff.mp table
  have most : descriptor.crc.size ≤ crcSize := steady.crc.bounded _ rfl
  have least : 0 + 4 ≤ descriptor.crc.size := (Buffer.getWord_eq_ok_iff.mp stored).1
  have exact : descriptor.crc.size = crcSize := Nat.le_antisymm most least
  have header : descriptor.header.size = headerSize :=
    steady.complete.resolve_left (by omega)
  have sum : headerSize + (tableSize + crcSize) = Size.signatureDescriptor := rfl
  rw [size_eq, header, exact] at whole
  have table : Composite.size descriptor.table = tableSize := by omega
  exact ⟨header, filled.symm.trans table, table, exact⟩

/-- A valid descriptor whose table is filled up with zeros is read back from its own bytes, whatever
follows them. -/
theorem takes_read (standard : descriptor.Standard) (padded : descriptor.table.Padded)
    (valid : descriptor.validate = .ok ()) (rest : Bytes) :
    Edit.Takes read empty (Fragment.toBytes descriptor) rest Size.signatureDescriptor descriptor := by
  obtain ⟨header, limit, -, crc⟩ := (standard.steady valid).sizes valid
  obtain ⟨whole, announced, validTable, -⟩ := validate_eq_ok_iff.mp valid
  let headed : SignatureDescriptor := { empty with header := descriptor.header }
  let laid : SignatureDescriptor :=
    { headed with table := ChainTable.expecting descriptor.table.format tableSize }
  have readHeader (rest : Bytes) : Edit.Takes (Edit.readPart SignatureDescriptor.header
      (fun descriptor header => { descriptor with header := header })) empty descriptor.header.bytes
        rest descriptor.header.size headed :=
    .readPart (standard.header.takes_read rfl (by rw [header]; rfl) announced.valid rest)
  have readTable (rest : Bytes) : Edit.Takes (Edit.readPart SignatureDescriptor.table
      (fun descriptor table => { descriptor with table := table })) laid
        (Fragment.toBytes descriptor.table) rest tableSize { laid with table := descriptor.table } := by
    have word : descriptor.table.limit % 8 = 4 := by
      rw [limit]
      rfl
    have small : descriptor.table.limit < 2 ^ 32 := by
      rw [limit]
      decide
    have reads := ChainTable.takes_read standard.table padded validTable word small rest
    rw [limit] at reads
    exact .readPart reads
  have readCrc : Edit.Takes (Edit.readPart SignatureDescriptor.crc
      (fun descriptor crc => { descriptor with crc := crc })) { laid with table := descriptor.table }
        descriptor.crc.bytes rest descriptor.crc.size descriptor := by
    have validCrc := standard.crc.validate_of_plain rfl rfl
    exact .readPart (standard.crc.takes_read rfl (by rw [crc]; rfl) validCrc rest)
  have complete : headed.checkHeaderComplete = .ok () := by
    refine require_of (Buffer.isComplete_iff.mpr fun most bounded => ?_)
    rw [show headed.header.limit = some headerSize from standard.header.limit,
      Option.some.injEq] at bounded
    rw [← bounded]
    exact Nat.le_of_eq header.symm
  have shape : headed.format = .ok descriptor.table.format := announced.format
  have total : Edit.Takes (pure (descriptor.header.size + tableSize + descriptor.crc.size))
      descriptor [] rest Size.signatureDescriptor descriptor := by
    rw [header, crc]
    exact .pure _ descriptor rest
  rw [toBytes_eq]
  refine .bind (readHeader _) (.look (.check complete _) (.look (.check shape _) ?_))
  refine .look (.modify _ headed _) (.bind (readTable _) (.last readCrc ?_))
  exact .look (.check valid _) total

theorem computedCrc_eq_ok_iff {crc : UInt32} :
    descriptor.computedCrc = .ok crc ↔ crcOffset ≤ Composite.size descriptor ∧
      Bytes.crc32 ((Fragment.toBytes descriptor).take crcOffset) = crc := by
  simp only [computedCrc, bind_eq_ok_iff, pure_eq_ok_iff]
  constructor
  · rintro ⟨bytes, read, rfl⟩
    obtain ⟨inside, rfl⟩ := Composite.readBytes_sound read
    rw [Bytes.slice_zero]
    exact ⟨by rwa [Nat.zero_add] at inside, rfl⟩
  · rintro ⟨inside, rfl⟩
    have copyable : Copyable 0 crcOffset := .of_lt (by decide)
    refine ⟨_, Composite.readBytes_inside (by rwa [Nat.zero_add]) copyable, ?_⟩
    rw [Bytes.slice_zero]
    rfl

theorem updateCrc_eq_ok_iff :
    updateCrc descriptor = .ok answer changed ↔
      ∃ crc, descriptor.computedCrc = .ok crc ∧ 4 ≤ descriptor.crc.size ∧
        { descriptor with crc := { descriptor.crc with
          bytes := Bytes.splice descriptor.crc.bytes 0 (Bytes.ofWord crc) } } = changed := by
  simp only [updateCrc, Edit.bind_eq_ok_iff, Edit.ask_eq_ok_iff, onCrc]
  constructor
  · rintro ⟨crc, _, ⟨computed, rfl⟩, ran⟩
    obtain ⟨_, stored, rfl⟩ := Edit.within_eq_ok_iff.mp ran
    obtain ⟨inside, rfl⟩ := Buffer.setWord_eq_ok_iff.mp (Edit.change_eq_ok_iff.mp stored)
    exact ⟨crc, computed, by rwa [Nat.zero_add] at inside, rfl⟩
  · rintro ⟨crc, computed, inside, rfl⟩
    refine ⟨crc, _, ⟨computed, rfl⟩, Edit.within_eq_ok_iff.mpr ⟨_, Edit.change_of_ok ?_, rfl⟩⟩
    exact Buffer.setWord_eq_ok_iff.mpr ⟨by rwa [Nat.zero_add], rfl⟩

/-- The stored checksum is the one of what comes before its place. -/
def Sealed (descriptor : SignatureDescriptor) : Prop :=
  ∃ crc, descriptor.computedCrc = .ok crc ∧ descriptor.storedCrc = .ok crc

/-- A header and a table of full size leave no checksum word in what is covered. -/
theorem take_withCrc (covers : crcOffset ≤ descriptor.header.size + Composite.size descriptor.table)
    (crc : Buffer) :
    (Fragment.toBytes { descriptor with crc := crc }).take crcOffset =
      (Fragment.toBytes descriptor).take crcOffset := by
  have front : crcOffset ≤ (descriptor.header.bytes ++ Fragment.toBytes descriptor.table).length := by
    rw [List.length_append, Fragment.Lawful.length_toBytes]
    exact covers
  rw [toBytes_eq, toBytes_eq, ← List.append_assoc, ← List.append_assoc,
    List.take_append_of_le_length front, List.take_append_of_le_length front]

/-- After the checksum was refreshed it matches if it stands behind what it covers. -/
theorem sealed_updateCrc
    (covers : crcOffset ≤ descriptor.header.size + Composite.size descriptor.table)
    (ran : updateCrc descriptor = .ok answer changed) : changed.Sealed := by
  obtain ⟨crc, computed, room, rfl⟩ := updateCrc_eq_ok_iff.mp ran
  obtain ⟨-, rfl⟩ := computedCrc_eq_ok_iff.mp computed
  have fits : 0 + 4 ≤ descriptor.crc.bytes.length := by rwa [Nat.zero_add]
  refine ⟨_, computedCrc_eq_ok_iff.mpr ⟨?_, ?_⟩, Buffer.getWord_eq_ok_iff.mpr
    ⟨?_, Bytes.wordAt_splice fits⟩⟩
  · rw [size_eq, ← Nat.add_assoc]
    exact Nat.le_add_right_of_le covers
  · exact congrArg Bytes.crc32 (take_withCrc covers _)
  · rw [Buffer.size, Bytes.length_splice_ofWord fits]
    exact fits

/-- Refreshing a checksum that matches changes nothing. -/
theorem Sealed.updateCrc_same (isSealed : descriptor.Sealed) :
    updateCrc descriptor = .ok () descriptor := by
  obtain ⟨crc, computed, stored⟩ := isSealed
  obtain ⟨inside, there⟩ := Buffer.getWord_eq_ok_iff.mp stored
  refine updateCrc_eq_ok_iff.mpr ⟨crc, computed, by rwa [Nat.zero_add] at inside, ?_⟩
  rw [← there, Bytes.splice_wordAt inside]

/-- The checksum of a descriptor of full size is refreshed. -/
theorem updateCrc_matches (complete : descriptor.header.size + Composite.size descriptor.table =
      crcOffset) (room : 4 ≤ descriptor.crc.size) :
    ∃ changed crc, updateCrc descriptor = .ok () changed ∧ changed.header = descriptor.header ∧
      changed.table = descriptor.table ∧ changed.crc.size = descriptor.crc.size ∧
      changed.computedCrc = .ok crc ∧ changed.storedCrc = .ok crc := by
  have whole : crcOffset ≤ Composite.size descriptor := by
    rw [size_eq]
    omega
  have computed := computedCrc_eq_ok_iff.mpr ⟨whole, rfl⟩
  obtain ⟨changed, ran⟩ : ∃ changed, updateCrc descriptor = .ok () changed :=
    ⟨_, updateCrc_eq_ok_iff.mpr ⟨_, computed, room, rfl⟩⟩
  obtain ⟨crc, computedToo, stored⟩ := sealed_updateCrc (Nat.le_of_eq complete.symm) ran
  refine ⟨changed, crc, ran, ?_⟩
  have fits : 0 + 4 ≤ descriptor.crc.bytes.length := by rwa [Nat.zero_add]
  obtain ⟨_, -, -, rfl⟩ := updateCrc_eq_ok_iff.mp ran
  exact ⟨rfl, rfl, Bytes.length_splice_ofWord fits, computedToo, stored⟩

/-- Refreshing a descriptor refreshes its table and then its checksum. -/
theorem update_eq_ok_iff :
    update descriptor = .ok answer changed ↔
      ∃ table, ChainTable.update descriptor.table = .ok () table ∧
        updateCrc { descriptor with table := table } = .ok () changed := by
  simp only [update, Edit.bind_eq_ok_iff, onTable]
  constructor
  · rintro ⟨_, _, ranTable, stored⟩
    obtain ⟨table, updated, rfl⟩ := Edit.within_eq_ok_iff.mp ranTable
    exact ⟨table, updated, stored⟩
  · rintro ⟨table, updated, stored⟩
    exact ⟨(), _, Edit.within_eq_ok_iff.mpr ⟨table, updated, rfl⟩, stored⟩

/-- Storing the checksum keeps its layout. -/
theorem crc_updateCrc (follows : descriptor.crc.Follows empty.crc)
    (ran : updateCrc descriptor = .ok answer changed) :
    changed.crc.Follows empty.crc ∧ 4 ≤ descriptor.crc.size ∧
      changed.header = descriptor.header ∧ changed.table = descriptor.table := by
  obtain ⟨crc, -, inside, rfl⟩ := updateCrc_eq_ok_iff.mp ran
  have same : (Bytes.splice descriptor.crc.bytes 0 (Bytes.ofWord crc)).length =
      descriptor.crc.size := Bytes.length_splice_ofWord (by rwa [Nat.zero_add])
  refine ⟨follows.withBytes ?_, inside, rfl, rfl⟩
  rw [same]
  exact follows.bounded

/-- Storing the checksum keeps the layout. -/
theorem Standard.updateCrc (standard : descriptor.Standard)
    (ran : SignatureDescriptor.updateCrc descriptor = .ok answer changed) :
    changed.Standard ∧ changed.header = descriptor.header ∧ changed.table = descriptor.table := by
  obtain ⟨crc, room, header, table⟩ := crc_updateCrc standard.crc ran
  refine ⟨⟨header ▸ standard.header, table ▸ standard.table, crc, .inr ?_⟩, header, table⟩
  rw [header]
  exact standard.complete.resolve_left (by omega)

theorem Steady.updateCrc (steady : descriptor.Steady)
    (ran : SignatureDescriptor.updateCrc descriptor = .ok answer changed) : changed.Steady := by
  obtain ⟨crc, room, header, table⟩ := crc_updateCrc steady.crc ran
  refine ⟨header ▸ steady.header, table ▸ steady.table, crc, .inr ?_⟩
  rw [header]
  exact steady.complete.resolve_left (by omega)

/-- Refreshing keeps the layout of a descriptor and fills its table up with zeros. -/
theorem Standard.update (standard : descriptor.Standard)
    (ran : SignatureDescriptor.update descriptor = .ok answer changed) :
    changed.Standard ∧ changed.table.Padded ∧ changed.table.format = descriptor.table.format := by
  obtain ⟨table, updated, ran⟩ := update_eq_ok_iff.mp ran
  obtain ⟨tableToo, padded, format, -⟩ := standard.table.update updated
  have standardToo : { descriptor with table := table }.Standard :=
    ⟨standard.header, tableToo, standard.crc, standard.complete⟩
  obtain ⟨again, -, same⟩ := standardToo.updateCrc ran
  rw [same]
  exact ⟨again, padded, format⟩

/-- A descriptor that announces itself and whose valid chains fit is refreshed to a valid one. -/
theorem Steady.update_exists (steady : descriptor.Steady) (announced : descriptor.Announced)
    (each : ∀ chain ∈ descriptor.table.chains, chain.validate = .ok ())
    (header : descriptor.header.size = headerSize)
    (slotHeader : descriptor.table.header.size = Size.chainTableHeader)
    (slots : descriptor.table.chains.length = descriptor.table.format.chainCount)
    (room : descriptor.table.limit = tableSize)
    (fits : Size.chainTableHeader + Fragment.totalSize descriptor.table.chains ≤ tableSize)
    (crc : descriptor.crc.size = crcSize) :
    ∃ changed, SignatureDescriptor.update descriptor = .ok () changed ∧
      changed.table.chains = descriptor.table.chains ∧ changed.header = descriptor.header ∧
      changed.table.format = descriptor.table.format ∧ changed.Steady ∧
      changed.validate = .ok () := by
  obtain ⟨table, updated, chains, format, limit, steadyTable, valid⟩ :=
    steady.table.update_exists each slotHeader slots (by rwa [room])
  obtain ⟨-, -, -, -, filled⟩ := ChainTable.validate_eq_ok_iff.mp valid
  rw [limit, room] at filled
  have complete : descriptor.header.size + Composite.size table = crcOffset := by
    rw [header, filled]
    rfl
  obtain ⟨changed, word, stored, sameHeader, sameTable, size, computed, found⟩ :
      ∃ changed word, SignatureDescriptor.updateCrc { descriptor with table := table } =
          .ok () changed ∧
        changed.header = descriptor.header ∧ changed.table = table ∧
        changed.crc.size = descriptor.crc.size ∧ changed.computedCrc = .ok word ∧
        changed.storedCrc = .ok word :=
    updateCrc_matches complete (Nat.le_of_eq crc.symm)
  have steadyToo : { descriptor with table := table }.Steady :=
    ⟨steady.header, steadyTable, steady.crc, steady.complete⟩
  have shape : changed.table.format = descriptor.table.format := by rw [sameTable, format]
  refine ⟨changed, update_eq_ok_iff.mpr ⟨table, updated, stored⟩, by rw [sameTable, chains],
    sameHeader, shape, steadyToo.updateCrc stored, ?_⟩
  refine validate_eq_ok_iff.mpr ⟨?_, announced.congr sameHeader shape, by rwa [sameTable], word,
    computed, found⟩
  rw [size_eq, sameHeader, sameTable, size, header, filled, crc]
  rfl

theorem addChain_eq_ok_iff :
    addChain chain descriptor = .ok index changed ↔
      ∃ table, descriptor.table.add chain = .ok (index, table) ∧
        updateCrc { descriptor with table := table } = .ok () changed := by
  simp only [addChain, onTable, Edit.bind_eq_ok_iff, Edit.pure_eq_ok_iff]
  constructor
  · rintro ⟨_, _, ran, _, _, stored, rfl, rfl⟩
    obtain ⟨table, added, rfl⟩ := Edit.within_eq_ok_iff.mp ran
    exact ⟨table, Edit.exchange_eq_ok_iff.mp added, stored⟩
  · rintro ⟨table, added, stored⟩
    exact ⟨index, _, Edit.within_eq_ok_iff.mpr ⟨table, Edit.exchange_eq_ok_iff.mpr added, rfl⟩, (),
      changed, stored, rfl, rfl⟩

/-- A chain that the table refuses leaves the descriptor as it is. -/
theorem addChain_of_refused {refusal : Failure}
    (refused : descriptor.table.add chain = .error refusal) :
    addChain chain descriptor = .error refusal descriptor := by
  refine Edit.bind_of_error ?_
  simp only [onTable, Edit.within, Edit.exchange, refused]

/-- Adding a chain is refreshing the descriptor with the chain in the first slot that is free. -/
theorem addChain_of_update {before : SignatureDescriptor} (valid : chain.validate = .ok ())
    (free : descriptor.table.chains.findIdx? SignatureChain.isEmpty = some index)
    (put : before = { descriptor with table :=
      { descriptor.table with chains := descriptor.table.chains.set index chain } })
    (ran : update before = .ok () changed) : addChain chain descriptor = .ok index changed := by
  subst put
  obtain ⟨table, updated, stored⟩ := update_eq_ok_iff.mp ran
  exact addChain_eq_ok_iff.mpr ⟨table, ChainTable.add_eq_ok_iff.mpr ⟨valid, free, updated⟩, stored⟩

/-- A chain that was added is valid and stands in its slot, where refreshing leaves it. -/
theorem chain?_addChain (ran : addChain chain descriptor = .ok index changed) :
    chain.validate = .ok () ∧ changed.table.chain? index = some chain := by
  obtain ⟨table, added, stored⟩ := addChain_eq_ok_iff.mp ran
  obtain ⟨_, -, -, rfl⟩ := updateCrc_eq_ok_iff.mp stored
  exact ChainTable.chain?_add added

theorem chain?_update (ran : update descriptor = .ok answer changed)
    (there : descriptor.table.chain? index = some chain) (valid : chain.validate = .ok ()) :
    changed.table.chain? index = some chain := by
  obtain ⟨table, updated, stored⟩ := update_eq_ok_iff.mp ran
  obtain ⟨_, -, -, rfl⟩ := updateCrc_eq_ok_iff.mp stored
  exact ChainTable.chain?_update updated there valid

/-- The chains of a valid descriptor are exchanged for any valid ones that fit and that refreshing
leaves alone. -/
theorem Steady.exchange_exists (steady : descriptor.Steady) (valid : descriptor.validate = .ok ())
    {chains : List SignatureChain}
    (fine : ∀ chain ∈ chains, Fragment.update chain = .ok () chain ∧ chain.validate = .ok ())
    (slots : chains.length = descriptor.table.format.chainCount)
    (fits : Size.chainTableHeader + Fragment.totalSize chains ≤ tableSize) :
    ∃ changed, SignatureDescriptor.update { descriptor with table :=
        { descriptor.table with chains := chains } } = .ok () changed ∧
      changed.table.chains = chains ∧ changed.table.format = descriptor.table.format ∧
      changed.Steady ∧ changed.validate = .ok () := by
  obtain ⟨header, limit, -, crc⟩ := steady.sizes valid
  obtain ⟨-, announced, table, -⟩ := validate_eq_ok_iff.mp valid
  obtain ⟨slotHeader, -⟩ := ChainTable.validate_eq_ok_iff.mp table
  let before : SignatureDescriptor :=
    { descriptor with table := { descriptor.table with chains := chains } }
  have steadyBefore : before.Steady :=
    ⟨steady.header, ⟨steady.table.header, fun chain member => (fine chain member).1⟩, steady.crc,
      steady.complete⟩
  have announcedBefore : before.Announced := announced.congr rfl rfl
  obtain ⟨changed, updated, same, -, format, steadyToo, validToo⟩ := steadyBefore.update_exists
    announcedBefore (fun chain member => (fine chain member).2) header slotHeader slots limit fits crc
  exact ⟨changed, updated, same, format, steadyToo, validToo⟩

theorem Standard.exchange_exists (standard : descriptor.Standard)
    (valid : descriptor.validate = .ok ()) {chains : List SignatureChain}
    (fine : ∀ chain ∈ chains, chain.Standard ∧ chain.validate = .ok ())
    (slots : chains.length = descriptor.table.format.chainCount)
    (fits : Size.chainTableHeader + Fragment.totalSize chains ≤ tableSize) :
    ∃ before changed, before = { descriptor with table := { descriptor.table with chains := chains } } ∧
      before.Standard ∧ SignatureDescriptor.update before = .ok () changed ∧
      changed.table.chains = chains ∧ changed.validate = .ok () := by
  have still : ∀ chain ∈ chains, Fragment.update chain = .ok () chain ∧ chain.validate = .ok () :=
    fun chain member => ⟨(fine chain member).1.update_of_valid (fine chain member).2,
      (fine chain member).2⟩
  obtain ⟨changed, updated, same, -, -, validToo⟩ :=
    (standard.steady valid).exchange_exists valid still slots fits
  exact ⟨_, changed, rfl, ⟨standard.header,
    ⟨standard.table.header, fun chain member => (fine chain member).1⟩, standard.crc,
    standard.complete⟩, updated, same, validToo⟩

/-- A valid descriptor is refreshed to a valid one with the same chains. -/
theorem Steady.update_valid (steady : descriptor.Steady) (valid : descriptor.validate = .ok ()) :
    ∃ changed, SignatureDescriptor.update descriptor = .ok () changed ∧
      changed.table.chains = descriptor.table.chains ∧
      changed.table.format = descriptor.table.format ∧ changed.Steady ∧
      changed.validate = .ok () := by
  obtain ⟨-, limit, -, -⟩ := steady.sizes valid
  obtain ⟨-, -, table, -⟩ := validate_eq_ok_iff.mp valid
  obtain ⟨slotHeader, slots, ⟨-, each, -⟩, -, filled⟩ := ChainTable.validate_eq_ok_iff.mp table
  have fits : Size.chainTableHeader + Fragment.totalSize descriptor.table.chains ≤ tableSize := by
    rw [ChainTable.size_eq, slotHeader, limit] at filled
    omega
  exact steady.exchange_exists valid
    (fun chain member => ⟨steady.table.chains chain member, each chain member⟩) slots fits

/-- Adding a chain to a valid descriptor either leaves it alone or makes it a valid one of the same
layout, whatever the chain. -/
theorem Steady.addChain (steady : descriptor.Steady) (valid : descriptor.validate = .ok ())
    (chain : SignatureChain) :
    (∃ failure, SignatureDescriptor.addChain chain descriptor = .error failure descriptor) ∨
      ∃ index changed, SignatureDescriptor.addChain chain descriptor = .ok index changed ∧
        changed.table.format = descriptor.table.format ∧ changed.Steady ∧
        changed.validate = .ok () := by
  cases added : descriptor.table.add chain with
  | error failure => exact .inl ⟨failure, addChain_of_refused added⟩
  | ok pair =>
    obtain ⟨index, table⟩ := pair
    obtain ⟨validChain, free, updated⟩ := ChainTable.add_eq_ok_iff.mp added
    obtain ⟨-, limit, -, -⟩ := steady.sizes valid
    obtain ⟨-, -, validTable, -⟩ := validate_eq_ok_iff.mp valid
    obtain ⟨slotHeader, slots, ⟨-, each, -⟩, -⟩ := ChainTable.validate_eq_ok_iff.mp validTable
    obtain ⟨chains, header, refreshed, stores, fits, -⟩ := ChainTable.update_eq_ok_iff.mp updated
    have fine : ∀ other ∈ descriptor.table.chains.set index chain, other.validate = .ok () :=
      fun other member => (List.mem_or_eq_of_mem_set member).elim (each other) (· ▸ validChain)
    obtain rfl := ChainTable.refreshed_eq fine refreshed
    have still := List.forall₂_same.mp refreshed
    have size := (ChainTable.storeSlots_follows steady.table.header stores).2
    rw [size, slotHeader, limit] at fits
    obtain ⟨changed, exchanged, -, format, steadyToo, validToo⟩ := steady.exchange_exists valid
      (fun other member => ⟨still other member, fine other member⟩)
      (List.length_set.trans slots) fits
    exact .inr ⟨index, changed, addChain_of_update validChain free rfl exchanged, format, steadyToo,
      validToo⟩

/-- A valid chain that fits is stored in the first slot of a valid descriptor without chains. -/
theorem Steady.addChain_exists (steady : descriptor.Steady) (valid : descriptor.validate = .ok ())
    (blank : descriptor.table.chains =
      List.replicate descriptor.table.format.chainCount SignatureChain.empty)
    (settled : Fragment.update chain = .ok () chain) (validChain : chain.validate = .ok ())
    (fits : Size.chainTableHeader + chain.size ≤ tableSize) :
    ∃ changed, SignatureDescriptor.addChain chain descriptor = .ok 0 changed ∧
      changed.table.format = descriptor.table.format ∧ changed.Steady ∧
      changed.validate = .ok () := by
  obtain ⟨more, count⟩ : ∃ more, descriptor.table.format.chainCount = more + 1 := by
    cases descriptor.table.format <;> exact ⟨_, rfl⟩
  rw [count, List.replicate_succ] at blank
  have free : descriptor.table.chains.findIdx? SignatureChain.isEmpty = some 0 := by
    rw [blank]
    rfl
  have fine : ∀ other ∈ chain :: List.replicate more SignatureChain.empty,
      Fragment.update other = .ok () other ∧ other.validate = .ok () := by
    refine List.forall_mem_cons.mpr ⟨⟨settled, validChain⟩, fun other member => ?_⟩
    rw [List.eq_of_mem_replicate member]
    exact ⟨(SignatureChain.standard_expecting (some 0)).update_of_valid
      SignatureChain.validate_empty, SignatureChain.validate_empty⟩
  have slots : (chain :: List.replicate more SignatureChain.empty).length =
      descriptor.table.format.chainCount := by
    rw [count, List.length_cons, List.length_replicate]
  have room : Size.chainTableHeader +
      Fragment.totalSize (chain :: List.replicate more SignatureChain.empty) ≤ tableSize := by
    rw [Fragment.totalSize, ChainTable.totalSize_replicate_empty]
    exact fits
  obtain ⟨changed, updated, -, format, steadyToo, validToo⟩ :=
    steady.exchange_exists valid fine slots room
  refine ⟨changed, addChain_of_update validChain free ?_ updated, format, steadyToo, validToo⟩
  rw [blank, List.set_cons_zero]

/-- Storing a digest keeps everything but the checksum and the digest itself. -/
theorem setBlock0Hash_eq_ok_iff :
    setBlock0Hash hash descriptor = .ok answer changed ↔
      ∃ header, descriptor.header.setRaw hash block0HashOffset = .ok header ∧
        updateCrc { descriptor with header := header } = .ok () changed := by
  simp only [setBlock0Hash, Edit.bind_eq_ok_iff, onHeader]
  constructor
  · rintro ⟨_, _, ran, stored⟩
    obtain ⟨header, written, rfl⟩ := Edit.within_eq_ok_iff.mp ran
    exact ⟨header, Edit.change_eq_ok_iff.mp written, stored⟩
  · rintro ⟨header, written, stored⟩
    exact ⟨(), _, Edit.within_eq_ok_iff.mpr ⟨header, Edit.change_of_ok written, rfl⟩, stored⟩

theorem Standard.setBlock0Hash (standard : descriptor.Standard)
    (ran : SignatureDescriptor.setBlock0Hash hash descriptor = .ok answer changed) :
    changed.Standard ∧ changed.table = descriptor.table := by
  obtain ⟨header, written, stored⟩ := setBlock0Hash_eq_ok_iff.mp ran
  have standardToo : { descriptor with header := header }.Standard := by
    refine ⟨standard.header.setRaw written, standard.table, standard.crc, ?_⟩
    rw [show header.size = descriptor.header.size from Buffer.size_setRaw written]
    exact standard.complete
  obtain ⟨again, -, table⟩ := standardToo.updateCrc stored
  exact ⟨again, table⟩

theorem table_setBlock0Hash (ran : setBlock0Hash hash descriptor = .ok answer changed) :
    changed.table = descriptor.table := by
  obtain ⟨header, -, stored⟩ := setBlock0Hash_eq_ok_iff.mp ran
  obtain ⟨_, -, -, rfl⟩ := updateCrc_eq_ok_iff.mp stored
  rfl

/-- The digest stands behind the words that announce the descriptor. -/
theorem Announced.setRaw {header : Buffer} (announced : descriptor.Announced)
    (follows : descriptor.header.Follows empty.header)
    (written : descriptor.header.setRaw hash block0HashOffset = .ok header) :
    { descriptor with header := header }.Announced := by
  have word (offset : Nat) (before : offset + 4 ≤ block0HashOffset) :
      header.getWord offset = descriptor.header.getWord offset :=
    Buffer.getWord_setRaw written (.inl before)
  have followsToo := follows.setRaw written
  refine ⟨?_, ?_, ?_, ?_⟩
  · obtain ⟨-, stand, -⟩ := Buffer.validate_eq_ok_iff.mp announced.valid
    rw [follows.magics] at stand
    refine Buffer.validate_eq_ok_iff.mpr ⟨followsToo.within, ?_, ?_⟩
    · rw [followsToo.magics]
      intro magic member
      obtain rfl : magic = (Magic.signatureDescriptor, 0) := List.mem_singleton.mp member
      exact Buffer.getWord_eq_ok_iff.mp ((word 0 (by decide)).trans
        (Buffer.getWord_eq_ok_iff.mpr (stand _ member)))
    · rw [followsToo.crcAddresses]
      simp [Buffer.HasCrcs, empty, Buffer.withMagic, Buffer.withDescription, Buffer.empty]
  · rw [← announced.format, SignatureDescriptor.format, SignatureDescriptor.format,
      word formatOffset (by decide)]
  · rw [word lengthOffset (by decide), announced.length]
  · rw [word reservedOffset (by decide), announced.reserved]

/-- Storing a digest makes a descriptor valid whose checksum is all that may not match. -/
theorem Steady.link_exists (steady : descriptor.Steady) (announced : descriptor.Announced)
    (validTable : descriptor.table.validate = .ok ()) (headerFull : descriptor.header.size = headerSize)
    (table : Composite.size descriptor.table = tableSize) (crc : descriptor.crc.size = crcSize)
    (whole : hash.length = block0HashSize) :
    ∃ changed, SignatureDescriptor.setBlock0Hash hash descriptor = .ok () changed ∧
      changed.table = descriptor.table ∧ changed.Steady ∧ changed.validate = .ok () ∧ changed.block0Hash = .ok hash := by
  obtain ⟨header, written⟩ : ∃ header, descriptor.header.setRaw hash block0HashOffset =
      .ok header := by
    refine ⟨_, Buffer.setRaw_eq_ok_iff.mpr ⟨?_, rfl⟩⟩
    rw [whole, headerFull]
    decide
  have size := Buffer.size_setRaw written
  have complete : header.size + Composite.size descriptor.table = crcOffset := by
    rw [size, headerFull, table]
    rfl
  obtain ⟨changed, word, stored, sameHeader, sameTable, sameCrc, computed, found⟩ :
      ∃ changed word, SignatureDescriptor.updateCrc { descriptor with header := header } =
          .ok () changed ∧
        changed.header = header ∧ changed.table = descriptor.table ∧
        changed.crc.size = descriptor.crc.size ∧ changed.computedCrc = .ok word ∧
        changed.storedCrc = .ok word :=
    updateCrc_matches complete (Nat.le_of_eq crc.symm)
  have announcedToo : changed.Announced :=
    (announced.setRaw steady.header written).congr sameHeader (by rw [sameTable])
  have steadyToo : { descriptor with header := header }.Steady :=
    ⟨steady.header.setRaw written, steady.table, steady.crc, .inr (size.trans headerFull)⟩
  refine ⟨changed, setBlock0Hash_eq_ok_iff.mpr ⟨header, written, stored⟩, sameTable,
    steadyToo.updateCrc stored, ?_, ?_⟩
  · refine validate_eq_ok_iff.mpr ⟨?_, announcedToo, by rwa [sameTable], word, computed, found⟩
    rw [size_eq, sameHeader, sameTable, sameCrc, size, headerFull, table, crc]
    rfl
  · obtain ⟨inside, rfl⟩ := Buffer.setRaw_eq_ok_iff.mp written
    rw [block0Hash, sameHeader, ← whole]
    exact Buffer.getRaw_eq_ok_iff.mpr ⟨by rw [size]; exact inside, Bytes.slice_splice inside⟩

/-- A digest is stored in a valid descriptor, which stays valid. -/
theorem Steady.setBlock0Hash_exists (steady : descriptor.Steady)
    (valid : descriptor.validate = .ok ()) (whole : hash.length = block0HashSize) :
    ∃ changed, SignatureDescriptor.setBlock0Hash hash descriptor = .ok () changed ∧
      changed.table = descriptor.table ∧ changed.Steady ∧ changed.validate = .ok () ∧ changed.block0Hash = .ok hash := by
  obtain ⟨header, -, table, crc⟩ := steady.sizes valid
  obtain ⟨-, announced, validTable, -⟩ := validate_eq_ok_iff.mp valid
  exact steady.link_exists announced validTable header table crc whole

/-- A valid descriptor is refreshed and linked to an object. -/
theorem Steady.relink_exists {α : Type} [Fragment α] (steady : descriptor.Steady)
    (valid : descriptor.validate = .ok ()) (object : α) :
    ∃ refreshed signed, SignatureDescriptor.update descriptor = .ok () refreshed ∧
      SignatureDescriptor.setBlock0Hash (Fragment.sha384 object) refreshed = .ok () signed ∧
      signed.table.format = descriptor.table.format ∧ signed.Steady ∧ signed.validate = .ok () ∧
      signed.block0Hash = .ok (Fragment.sha384 object) := by
  have whole : (Fragment.sha384 object).length = block0HashSize := Bytes.length_sha384 _
  obtain ⟨refreshed, freshens, -, format, steadyToo, validToo⟩ := steady.update_valid valid
  obtain ⟨signed, links, table, again, validSigned, linked⟩ :=
    steadyToo.setBlock0Hash_exists validToo whole
  exact ⟨refreshed, signed, freshens, links, table ▸ format, again, validSigned, linked⟩

/-- The header of a new descriptor. -/
def newHeader (format : ChainFormat) : Buffer :=
  { empty.header with
    bytes := Bytes.ofWord Magic.signatureDescriptor ++ (Bytes.ofWord format.value ++
      (Bytes.ofWord (UInt32.ofNat Size.signatureDescriptor) ++ Bytes.zeros 52)) }

theorem initialize_header (format : ChainFormat) :
    (do
      Buffer.reset headerSize
      Edit.change (·.setWord format.value formatOffset)
      Edit.change (·.setWord (UInt32.ofNat Size.signatureDescriptor) lengthOffset) :
        Edit Buffer Unit) empty.header = .ok () (newHeader format) := by
  cases format <;> rfl

theorem follows_newHeader (format : ChainFormat) : (newHeader format).Follows empty.header := by
  refine ⟨rfl, fun most bounded => ?_⟩
  rw [← show headerSize = most from Option.some.inj bounded]
  exact Nat.le_of_eq (by cases format <;> rfl)

theorem announced_newHeader (format : ChainFormat) (shape : descriptor.table.format = format)
    (header : descriptor.header = newHeader format) : descriptor.Announced := by
  have magic : Bytes.wordAt (newHeader format).bytes 0 = Magic.signatureDescriptor := by
    cases format <;> decide
  refine ⟨?_, ?_, ?_, ?_⟩
  · rw [header, Buffer.validate_eq_ok_iff]
    refine ⟨(follows_newHeader format).bounded, ?_, ?_⟩
    · intro registered member
      obtain rfl : registered = (Magic.signatureDescriptor, 0) := List.mem_singleton.mp member
      exact ⟨by cases format <;> decide, magic⟩
    · intro address member
      cases member
  · rw [SignatureDescriptor.format, header, shape]
    cases format <;> rfl
  · rw [header]
    cases format <;> rfl
  · rw [header]
    cases format <;> rfl

/-- A new descriptor has empty chains and is valid. -/
theorem create_exists (format : ChainFormat) :
    ∃ descriptor, create format = .ok descriptor ∧ descriptor.Standard ∧
      descriptor.table.Padded ∧ descriptor.validate = .ok () ∧ descriptor.table.format = format ∧
      descriptor.table.chains = List.replicate format.chainCount SignatureChain.empty := by
  obtain ⟨table, created, standard, -, valid, shape, limit, chains⟩ :=
    ChainTable.create_exists format (show Size.chainTableHeader ≤ tableSize by decide)
  have each : ∀ chain ∈ table.chains, chain.validate = .ok () := by
    rw [chains]
    intro chain member
    rw [List.eq_of_mem_replicate member, SignatureChain.validate_empty]
  let begun : SignatureDescriptor :=
    ⟨newHeader format, table, { empty.crc with bytes := Bytes.zeros crcSize }⟩
  have whole : begun.header.size = headerSize := by
    show (newHeader format).size = headerSize
    cases format <;> rfl
  have standardBegun : begun.Standard := by
    refine ⟨follows_newHeader format, standard, ⟨rfl, fun most bounded => ?_⟩, .inr whole⟩
    exact Nat.le_of_eq ((Bytes.length_zeros crcSize).trans (Option.some.inj bounded))
  have announced : begun.Announced := announced_newHeader format shape rfl
  obtain ⟨slotHeader, slots, -, -, filled⟩ := ChainTable.validate_eq_ok_iff.mp valid
  have fits : Size.chainTableHeader + Fragment.totalSize table.chains ≤ tableSize := by
    rw [ChainTable.size_eq, slotHeader, limit] at filled
    omega
  obtain ⟨descriptor, updated, sameChains, -, sameFormat, -, validToo⟩ :=
    (standardBegun.steady_of_chains each).update_exists announced each whole slotHeader slots limit
      fits (Bytes.length_zeros crcSize)
  obtain ⟨again, padded, -⟩ := standardBegun.update updated
  refine ⟨descriptor, ?_, again, padded, validToo, sameFormat.trans shape, sameChains.trans chains⟩
  have cleared : Buffer.reset crcSize empty.crc = .ok () begun.crc := rfl
  simp only [create, bind_eq_ok_iff, Edit.result_eq_ok_iff, Edit.bind_eq_ok_iff, onHeader, onCrc]
  exact ⟨table, created, (), (), _, Edit.within_eq_ok_iff.mpr ⟨_, initialize_header format, rfl⟩, (),
    _, Edit.within_eq_ok_iff.mpr ⟨_, cleared, rfl⟩, updated⟩

end SecureBoot.SignatureDescriptor
