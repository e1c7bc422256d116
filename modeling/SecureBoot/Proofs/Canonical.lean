import SecureBoot.Proofs.Consistency
import SecureBoot.Proofs.Parsing

/-!
How close a valid signature descriptor is to what refreshing makes of it. The slots, the lengths, the
magic numbers and the checksum that are checked are those that would be stored. Nothing looks at the
padding behind the last chain: refreshing fills it with zeros, which shows wherever something else
stood there.
-/

namespace SecureBoot

namespace ChainTable

variable {table : ChainTable} {slots : List (UInt32 × UInt32)} {index : Nat} {count offset : UInt32}
  {stored : Option UInt32} {padding : Buffer}

/-- The slot that is looked up for an index stands at its address. -/
theorem holdsSlot_of_looked_up (found : table.chainOffset index = .ok offset)
    (counted : table.chainEntryCount index = .ok stored) (same : stored = none ∨ stored = some count) :
    index * table.format.slotSize + table.format.slotSize ≤ table.header.size ∧
      HoldsSlot table.format (index * table.format.slotSize) count offset table.header.bytes := by
  cases layout : table.format with
  | classic =>
    simp only [chainOffset, chainEntryCount, layout, bind_eq_ok_iff, pure_eq_ok_iff,
      Buffer.getWord_eq_ok_iff] at found counted
    obtain ⟨inside, placed⟩ := found
    obtain ⟨word, ⟨-, there⟩, rfl⟩ := counted
    obtain rfl : word = count := by simpa using same
    exact ⟨inside, there, placed⟩
  | multiRoot =>
    simp only [chainOffset, layout, Buffer.getWord_eq_ok_iff] at found
    exact found

/-- Storing slots that check changes nothing. -/
theorem storeSlots_of_checkSlots (checked : table.checkSlots index slots = .ok ()) :
    storeSlots table.format (index * table.format.slotSize) slots table.header =
      .ok () table.header := by
  induction slots generalizing index with
  | nil => rfl
  | cons first later ih =>
    obtain ⟨count, offset⟩ := first
    obtain ⟨found, ⟨_, counted, same⟩, checkedLater⟩ := checkSlots_cons_iff.mp checked
    obtain ⟨inside, holds⟩ := holdsSlot_of_looked_up found counted same
    rw [storeSlots_cons, Edit.bind_of_ok (storeSlot_same inside holds), ← Nat.succ_mul]
    exact ih checkedLater

/-- Refreshing a valid table only fills it up with zeros. -/
theorem update_of_valid (plain : ∀ chain ∈ table.chains, chain.Plain)
    (valid : table.validate = .ok ()) :
    ChainTable.update table = .ok () { table with padding := paddingOf table.padding.size } := by
  obtain ⟨-, -, ⟨-, each, -⟩, checked, whole⟩ := validate_eq_ok_iff.mp valid
  have settled : ∀ chain ∈ table.chains, Fragment.update chain = .ok () chain :=
    fun chain member => (plain chain member).update_of_valid (each chain member)
  have stores : storeSlots table.format 0 table.layout table.header = .ok () table.header := by
    have stores := storeSlots_of_checkSlots checked
    rwa [Nat.zero_mul] at stores
  rw [size_eq, ← Nat.add_assoc] at whole
  refine update_eq_ok_iff.mpr
    ⟨table.chains, table.header, List.forall₂_same.mpr settled, stores, by omega, ?_⟩
  rw [← whole, Nat.add_sub_cancel_left]

/-- A valid table stays valid whatever padding of the same size it is given. -/
theorem validate_withPadding (valid : table.validate = .ok ()) (fine : padding.validate = .ok ())
    (size : padding.size = table.padding.size) : { table with padding := padding }.validate = .ok () := by
  obtain ⟨header, slots, ⟨validHeader, each, -⟩, checked, whole⟩ := validate_eq_ok_iff.mp valid
  have kept : { table with padding := padding }.checkSlots 0 table.layout =
      table.checkSlots 0 table.layout := checkSlots_congr rfl rfl
  refine validate_eq_ok_iff.mpr ⟨header, slots, ⟨validHeader, each, fine⟩, kept.trans checked, ?_⟩
  rw [size_eq] at whole ⊢
  rw [size]
  exact whole

end ChainTable

namespace SignatureDescriptor

variable {descriptor : SignatureDescriptor} {bytes hash : Bytes}

/-- Refreshing a valid descriptor fills its table up with zeros and stores the checksum of that. -/
theorem update_of_valid (plain : ∀ chain ∈ descriptor.table.chains, chain.Plain)
    (valid : descriptor.validate = .ok ()) :
    ∃ changed, update descriptor = .ok () changed ∧ changed.header = descriptor.header ∧
      changed.table = { descriptor.table with
        padding := ChainTable.paddingOf descriptor.table.padding.size } ∧
      (Fragment.toBytes changed.table = Fragment.toBytes descriptor.table →
        changed.crc = descriptor.crc) := by
  obtain ⟨whole, -, validTable, crc, computed, stored⟩ := validate_eq_ok_iff.mp valid
  obtain ⟨inside, there⟩ := Buffer.getWord_eq_ok_iff.mp stored
  let padded : ChainTable := { descriptor.table with
    padding := ChainTable.paddingOf descriptor.table.padding.size }
  have size : Composite.size { descriptor with table := padded } = Composite.size descriptor := by
    rw [size_eq, size_eq, ChainTable.size_eq, ChainTable.size_eq, ChainTable.size_paddingOf]
  have covers : crcOffset ≤ Composite.size { descriptor with table := padded } := by
    rw [size, whole]
    decide
  have refreshes := computedCrc_eq_ok_iff.mpr ⟨covers, rfl⟩
  refine ⟨_, update_eq_ok_iff.mpr ⟨padded, ChainTable.update_of_valid plain validTable,
    updateCrc_eq_ok_iff.mpr ⟨_, refreshes, by rwa [Nat.zero_add] at inside, rfl⟩⟩, rfl, rfl,
    fun same => ?_⟩
  -- The bytes that the checksum covers are the same, so the word that is stored stands there.
  have unchanged : Fragment.toBytes { descriptor with table := padded } =
      Fragment.toBytes descriptor := by
    rw [toBytes_eq, toBytes_eq]
    exact congrArg (fun table => descriptor.header.bytes ++ (table ++ descriptor.crc.bytes)) same
  obtain ⟨-, computed⟩ := computedCrc_eq_ok_iff.mp computed
  rw [unchanged, computed, ← there, Bytes.splice_wordAt inside]

/-- Refreshing a valid descriptor keeps its header, its slots and its chains, and its bytes exactly if
the padding of the table is zeros. -/
theorem update_clears_padding (plain : ∀ chain ∈ descriptor.table.chains, chain.Plain)
    (valid : descriptor.validate = .ok ()) :
    ∃ changed, update descriptor = .ok () changed ∧ changed.header = descriptor.header ∧
      changed.table.header = descriptor.table.header ∧
      changed.table.chains = descriptor.table.chains ∧
      (Fragment.toBytes changed = Fragment.toBytes descriptor ↔
        descriptor.table.padding.bytes = Bytes.zeros descriptor.table.padding.size) := by
  obtain ⟨changed, updated, header, table, crc⟩ := update_of_valid plain valid
  have behind : Fragment.toBytes changed.table = descriptor.table.header.bytes ++
      (descriptor.table.chains.flatMap Fragment.toBytes ++
        Bytes.zeros descriptor.table.padding.size) := by
    rw [ChainTable.toBytes_eq, table]
    rfl
  have tables : Fragment.toBytes changed.table = Fragment.toBytes descriptor.table ↔
      descriptor.table.padding.bytes = Bytes.zeros descriptor.table.padding.size := by
    rw [behind, ChainTable.toBytes_eq, List.append_cancel_left_eq, List.append_cancel_left_eq,
      eq_comm]
  refine ⟨changed, updated, header, by rw [table], by rw [table], ?_⟩
  rw [← tables, toBytes_eq, toBytes_eq, header, List.append_cancel_left_eq]
  constructor
  · have length : (Fragment.toBytes changed.table).length =
        (Fragment.toBytes descriptor.table).length := by
      rw [behind, ChainTable.toBytes_eq]
      simp only [List.length_append, Bytes.length_zeros]
      rfl
    exact fun same => (List.append_inj same length).1
  · intro same
    rw [same, crc same]

/-- Whether a descriptor was read or only validates, refreshing it succeeds. It leaves the bytes alone
exactly if the padding of the table is zeros, and keeps the header, the slots and the chains in any
case. -/
theorem update_keeps_bytes_iff (descriptor : SignatureDescriptor) :
    ((∀ chain ∈ descriptor.table.chains, chain.Plain) → descriptor.validate = .ok () →
      ∃ changed, update descriptor = .ok () changed ∧ changed.header = descriptor.header ∧
        changed.table.header = descriptor.table.header ∧
        changed.table.chains = descriptor.table.chains ∧
        (Fragment.toBytes changed = Fragment.toBytes descriptor ↔
          descriptor.table.padding.bytes = Bytes.zeros descriptor.table.padding.size)) ∧
    ∀ (stream left : Stream) (count : Nat), stream.Steady →
      read (empty, stream) = .ok count (descriptor, left) →
        (∀ chain ∈ descriptor.table.chains, chain.Plain) ∧ descriptor.validate = .ok () := by
  refine ⟨update_clears_padding, ?_⟩
  intro stream left count steady ran
  obtain ⟨-, -, valid, standard⟩ := read_sound rfl rfl steady ran
  exact ⟨fun chain member => (standard chain member).plain, valid⟩

/-- A descriptor with a chain that was read, which refreshing leaves alone. -/
theorem update_keeps_bytes_iff_closedChain :
    ∃ chain descriptor left changed, SignatureChain.closedChain = .ok chain ∧
      descriptor.table.chains = chain :: List.replicate 3 SignatureChain.empty ∧
      read (empty, Stream.ofBytes (Fragment.toBytes descriptor)) =
        .ok Size.signatureDescriptor (descriptor, left) ∧
      update descriptor = .ok () changed ∧ Fragment.toBytes changed = Fragment.toBytes descriptor := by
  obtain ⟨chain, built, -, -, size⟩ := SignatureChain.closedChain_exists
  obtain ⟨standardChain, validChain⟩ := SignatureChain.standard_closedChain built
  obtain ⟨created, -, standard, -, valid, format, -⟩ := create_exists .classic
  have fine : ∀ other ∈ chain :: List.replicate 3 SignatureChain.empty,
      other.Standard ∧ other.validate = .ok () := by
    refine List.forall_mem_cons.mpr ⟨⟨standardChain, validChain⟩, fun other member => ?_⟩
    rw [List.eq_of_mem_replicate member]
    exact ⟨SignatureChain.standard_expecting (some 0), SignatureChain.validate_empty⟩
  have fits : Size.chainTableHeader +
      Fragment.totalSize (chain :: List.replicate 3 SignatureChain.empty) ≤ tableSize := by
    rw [Fragment.totalSize, ChainTable.totalSize_replicate_empty]
    show Size.chainTableHeader + (chain.size + 0) ≤ tableSize
    rw [size]
    decide
  obtain ⟨before, descriptor, -, standardBefore, updated, chains, validToo⟩ :=
    standard.exchange_exists valid fine (by rw [format]; rfl) fits
  obtain ⟨standardToo, padded, -⟩ := standardBefore.update updated
  obtain ⟨left, ran, -⟩ := takes_read standardToo padded validToo []
    (Stream.ofBytes (Fragment.toBytes descriptor)) (Stream.steady_ofBytes _) (by simp)
  obtain ⟨keeps, reads⟩ := update_keeps_bytes_iff descriptor
  obtain ⟨plain, again⟩ := reads _ left _ (Stream.steady_ofBytes _) ran
  obtain ⟨changed, refreshed, -, -, -, kept⟩ := keeps plain again
  exact ⟨chain, descriptor, left, changed, built, chains, ran, refreshed,
    kept.mpr (congrArg Buffer.bytes padded)⟩

/-- The descriptor with other bytes as its padding. -/
def withPadding (descriptor : SignatureDescriptor) (bytes : Bytes) : SignatureDescriptor :=
  { descriptor with table := { descriptor.table with
    padding := { descriptor.table.padding with bytes := bytes } } }

/-- A valid descriptor is given any padding of the same length and a digest, and is valid again. -/
theorem Standard.withPadding_exists (standard : descriptor.Standard)
    (padded : descriptor.table.Padded) (valid : descriptor.validate = .ok ())
    (length : bytes.length = descriptor.table.padding.size) (whole : hash.length = block0HashSize) :
    ∃ changed, SignatureDescriptor.setBlock0Hash hash (descriptor.withPadding bytes) = .ok () changed ∧
      changed.table = (descriptor.withPadding bytes).table ∧ changed.validate = .ok () := by
  have steady := standard.steady valid
  obtain ⟨header, -, table, crc⟩ := steady.sizes valid
  obtain ⟨-, announced, validTable, -⟩ := validate_eq_ok_iff.mp valid
  have follows : (descriptor.withPadding bytes).table.padding.Follows
      (Buffer.empty (some descriptor.table.padding.size)) := by
    refine ⟨?_, fun most bounded => ?_⟩
    · exact congrArg (fun padding : Buffer => { padding with bytes := bytes }) padded
    · rw [← Option.some.inj bounded, ← length]
      exact Nat.le_refl bytes.length
  have validEdited : (descriptor.withPadding bytes).table.validate = .ok () :=
    ChainTable.validate_withPadding validTable (follows.validate_of_plain rfl rfl) length
  have tableEdited : Composite.size (descriptor.withPadding bytes).table = tableSize := by
    obtain ⟨-, -, -, -, filled⟩ := ChainTable.validate_eq_ok_iff.mp validTable
    obtain ⟨-, -, -, -, same⟩ := ChainTable.validate_eq_ok_iff.mp validEdited
    exact same.trans (filled.symm.trans table)
  have steadyEdited : (descriptor.withPadding bytes).Steady :=
    ⟨steady.header, ⟨steady.table.header, steady.table.chains⟩, steady.crc, steady.complete⟩
  obtain ⟨changed, links, same, -, validToo, -⟩ := steadyEdited.link_exists
    (announced.congr rfl rfl) validEdited header tableEdited crc whole
  exact ⟨changed, links, same, validToo⟩

/-- A new descriptor with one byte of its padding set that is given a digest validates, and
refreshing it changes its bytes. -/
theorem padding_not_kept :
    ∃ created descriptor changed, create .classic = .ok created ∧
      setBlock0Hash (Bytes.zeros block0HashSize) (created.withPadding (1 :: Bytes.zeros 3995)) =
        .ok () descriptor ∧
      descriptor.validate = .ok () ∧ update descriptor = .ok () changed ∧
      Fragment.toBytes changed ≠ Fragment.toBytes descriptor := by
  obtain ⟨created, creates, standard, padded, valid, -, chains⟩ := create_exists .classic
  obtain ⟨-, limit, -⟩ := (standard.steady valid).sizes valid
  obtain ⟨-, -, validTable, -⟩ := validate_eq_ok_iff.mp valid
  obtain ⟨slotHeader, -, -, -, filled⟩ := ChainTable.validate_eq_ok_iff.mp validTable
  have room : created.table.padding.size = 3996 := by
    have unfilled : Fragment.totalSize created.table.chains = 0 := by
      rw [chains, ChainTable.totalSize_replicate_empty]
    have space : tableSize = Size.chainTableHeader + 3996 := rfl
    rw [ChainTable.size_eq, slotHeader, unfilled, limit, Nat.zero_add, space] at filled
    exact Nat.add_left_cancel filled
  have length : ((1 : UInt8) :: Bytes.zeros 3995).length = created.table.padding.size := by
    rw [List.length_cons, Bytes.length_zeros, room]
  obtain ⟨descriptor, links, same, validToo⟩ :=
    standard.withPadding_exists padded valid length (Bytes.length_zeros block0HashSize)
  have plain : ∀ chain ∈ descriptor.table.chains, chain.Plain := by
    rw [same]
    exact fun chain member => (standard.table.chains chain member).plain
  obtain ⟨changed, updated, -, -, -, kept⟩ := update_clears_padding plain validToo
  refine ⟨created, descriptor, changed, creates, links, validToo, updated, fun unchanged => ?_⟩
  have zeros := kept.mp unchanged
  rw [same] at zeros
  have first : (1 : UInt8) ∈ Bytes.zeros
      (created.withPadding (1 :: Bytes.zeros 3995)).table.padding.size := by
    rw [← zeros]
    exact List.mem_cons_self
  exact absurd (List.eq_of_mem_replicate first) (by decide)

end SignatureDescriptor
end SecureBoot
