import SecureBoot.Proofs.Checksum
import SecureBoot.Proofs.Refreshing

/-!
What refreshing makes agree. Counts and lengths are stored before the checksums that cover them,
these before the digests that cover both, and the checksum of a signature descriptor behind all of
them, so that nothing that is stored makes an earlier word stale; refreshing once more stores the
same words again.
-/

namespace SecureBoot

namespace ChainEntry

variable {entry changed : ChainEntry} {answer : Unit}

/-- The lengths of an entry do not depend on the words they are stored in. -/
theorem Headed.update_again (headed : entry.Headed)
    (ran : ChainEntry.update entry = .ok answer changed) :
    ChainEntry.update changed = .ok () changed := by
  obtain ⟨again, -, -, tail, size, -⟩ := headed.update ran
  obtain ⟨inside, total, data, signature, whole, middle, last, rfl⟩ :=
    (update_eq_ok_iff headed).mp ran
  refine (update_eq_ok_iff again).mpr
    ⟨?_, total, data, signature, whole.trans size.symm, middle, last, ?_⟩
  · rw [Buffer.size, List.length_append, length_leadingWords]
    exact Nat.le_add_right _ _
  · simp only at tail ⊢
    rw [tail]
    rfl

end ChainEntry

theorem SignatureChain.Standard.update_again {chain changed : SignatureChain} {answer : Unit}
    (standard : chain.Standard) (ran : Fragment.update chain = .ok answer changed) :
    Fragment.update changed = .ok () changed := by
  have again := standard.update ran
  obtain ⟨entries, each, rfl⟩ := standard.plain.update_eq_ok_iff.mp ran
  refine again.plain.update_eq_ok_iff.mpr ⟨entries, List.forall₂_same.mpr ?_, rfl⟩
  exact Edit.forall_of_forall₂
    (fun entry member other ran => (standard.entries entry member).header.update_again ran) each

namespace ChainTable

variable {table changed : ChainTable} {slots : List (UInt32 × UInt32)} {format : ChainFormat}
  {header stored : Buffer} {address : Nat} {count offset : UInt32} {answer : Unit}

/-- Storing the slot that stands there changes nothing. -/
theorem storeSlot_same (inside : address + format.slotSize ≤ header.size)
    (holds : HoldsSlot format address count offset header.bytes) :
    storeSlot format address count offset header = .ok () header := by
  cases format with
  | classic =>
    obtain ⟨counted, placed⟩ := holds
    have first : address + 4 ≤ header.size := Nat.le_trans (by simp [ChainFormat.slotSize]) inside
    rw [storeSlot, Edit.bind_of_ok (Edit.change_of_ok (Buffer.setWord_of_wordAt first counted)),
      Edit.change_of_ok (Buffer.setWord_of_wordAt inside placed)]
  | multiRoot =>
    rw [storeSlot, Edit.change_of_ok (Buffer.setWord_of_wordAt inside holds)]

/-- Storing slots leaves the words before them. -/
theorem storeSlots_frame (ran : storeSlots format address slots header = .ok answer stored) :
    stored.size = header.size ∧ ∀ before, before + 4 ≤ address →
      Bytes.wordAt stored.bytes before = Bytes.wordAt header.bytes before := by
  induction slots generalizing header address with
  | nil =>
    obtain ⟨-, rfl⟩ := Edit.pure_eq_ok_iff.mp ran
    exact ⟨rfl, fun _ _ => rfl⟩
  | cons first later ih =>
    obtain ⟨count, offset⟩ := first
    rw [storeSlots_cons, Edit.bind_eq_ok_iff] at ran
    obtain ⟨_, between, stores, ran⟩ := ran
    obtain ⟨-, -, size, -, kept⟩ := storeSlot_eq_ok stores
    obtain ⟨same, frame⟩ := ih ran
    refine ⟨same.trans size, fun before below => ?_⟩
    rw [frame before (Nat.le_add_right_of_le below), kept before below]

theorem storeSlots_again (ran : storeSlots format address slots header = .ok answer stored) :
    storeSlots format address slots stored = .ok () stored := by
  induction slots generalizing header address with
  | nil => rfl
  | cons first later ih =>
    obtain ⟨count, offset⟩ := first
    rw [storeSlots_cons, Edit.bind_eq_ok_iff] at ran
    obtain ⟨_, between, stores, ran⟩ := ran
    obtain ⟨inside, -, size, holds, -⟩ := storeSlot_eq_ok stores
    obtain ⟨same, frame⟩ := storeSlots_frame ran
    have room : address + format.slotSize ≤ stored.size := by rwa [same, size]
    rw [storeSlots_cons, Edit.bind_of_ok (storeSlot_same room (holds.mono frame)), ih ran]

/-- What refreshing leaves of a table, refreshing leaves alone. -/
theorem Standard.update_again (standard : table.Standard)
    (ran : ChainTable.update table = .ok answer changed) :
    ChainTable.update changed = .ok () changed := by
  obtain ⟨chains, header, each, stores, fits, rfl⟩ := update_eq_ok_iff.mp ran
  have settled : ∀ chain ∈ chains, Fragment.update chain = .ok () chain :=
    Edit.forall_of_forall₂
      (fun chain member other ran => (standard.chains chain member).update_again ran) each
  exact update_eq_ok_iff.mpr
    ⟨chains, header, List.forall₂_same.mpr settled, storeSlots_again stores, fits, rfl⟩

/-- A refreshed table is filled up. -/
theorem size_update (ran : ChainTable.update table = .ok answer changed) :
    Composite.size changed = table.limit ∧ changed.limit = table.limit := by
  obtain ⟨chains, header, -, -, fits, rfl⟩ := update_eq_ok_iff.mp ran
  refine ⟨?_, rfl⟩
  rw [size_eq, size_paddingOf, ← Nat.add_assoc]
  exact Nat.add_sub_cancel' fits

end ChainTable

namespace SignatureDescriptor

variable {descriptor fresh signed : SignatureDescriptor} {hash : Bytes} {answer : Unit}

theorem update_same (table : ChainTable.update descriptor.table = .ok () descriptor.table)
    (isSealed : descriptor.Sealed) : update descriptor = .ok () descriptor :=
  update_eq_ok_iff.mpr ⟨descriptor.table, table, isSealed.updateCrc_same⟩

/-- Storing the digest that is stored, under a checksum that matches, changes nothing. -/
theorem setBlock0Hash_same (linked : descriptor.block0Hash = .ok hash)
    (whole : hash.length = block0HashSize) (isSealed : descriptor.Sealed) :
    setBlock0Hash hash descriptor = .ok () descriptor := by
  obtain ⟨inside, there⟩ := Buffer.getRaw_eq_ok_iff.mp linked
  rw [← whole] at inside there
  have written : descriptor.header.setRaw hash block0HashOffset = .ok descriptor.header := by
    refine Buffer.setRaw_eq_ok_iff.mpr ⟨inside, ?_⟩
    rw [Bytes.splice_of_slice_eq inside there]
  exact setBlock0Hash_eq_ok_iff.mpr ⟨descriptor.header, written, isSealed.updateCrc_same⟩

/-- A descriptor that was refreshed and given a digest holds this digest, and its checksum matches
if its table leaves no checksum word in what is covered. -/
theorem linked_of_update (freshens : update descriptor = .ok () fresh)
    (links : setBlock0Hash hash fresh = .ok answer signed) (whole : hash.length = block0HashSize) :
    signed.block0Hash = .ok hash ∧ signed.table.limit = descriptor.table.limit ∧
      (tableSize ≤ signed.table.limit → signed.Sealed) := by
  obtain ⟨table, updated, stored⟩ := update_eq_ok_iff.mp freshens
  obtain ⟨_, -, -, rfl⟩ := updateCrc_eq_ok_iff.mp stored
  obtain ⟨header, written, storedToo⟩ := setBlock0Hash_eq_ok_iff.mp links
  have sized := Buffer.size_setRaw written
  obtain ⟨inside, shape⟩ := Buffer.setRaw_eq_ok_iff.mp written
  obtain ⟨filled, limit⟩ := ChainTable.size_update updated
  have full : headerSize ≤ header.size := by
    rw [sized]
    rwa [whole] at inside
  have closing (room : tableSize ≤ table.limit) : signed.Sealed := by
    refine sealed_updateCrc ?_ storedToo
    have split : crcOffset = headerSize + tableSize := rfl
    rw [split]
    exact Nat.add_le_add full (filled ▸ limit ▸ room)
  obtain ⟨_, -, -, rfl⟩ := updateCrc_eq_ok_iff.mp storedToo
  refine ⟨?_, limit, closing⟩
  rw [block0Hash, ← whole]
  refine Buffer.getRaw_eq_ok_iff.mpr ⟨sized ▸ inside, ?_⟩
  rw [← shape]
  exact Bytes.slice_splice inside

/-- Refreshing leaves the table alone that refreshing left. -/
theorem Standard.table_update_again (standard : descriptor.Standard)
    (freshens : SignatureDescriptor.update descriptor = .ok () fresh)
    (links : SignatureDescriptor.setBlock0Hash hash fresh = .ok answer signed) :
    ChainTable.update signed.table = .ok () signed.table := by
  obtain ⟨table, updated, stored⟩ := update_eq_ok_iff.mp freshens
  obtain ⟨_, -, -, rfl⟩ := updateCrc_eq_ok_iff.mp stored
  rw [table_setBlock0Hash links]
  exact standard.table.update_again updated

end SignatureDescriptor

namespace Section

variable {sect fresh : Section} {counted : SectionHeader} {count : UInt32} {following : Nat}
  {answer : Unit}

/-- What a section states about itself is so, and the given number of sections follows it. The
checksum of the signatures is promised for tables of at least the size of a new one. -/
structure Consistent (sect : Section) (following : Nat) : Prop where
  linked : sect.signatures.block0Hash = .ok (Fragment.sha384 sect.header)
  counted : ∃ count, sect.sectionsRemaining = .ok count ∧ count.toNat = following
  measured : ∃ length, sect.header.sectionLength = .ok length ∧ length.toNat = sect.payload.size
  header : sect.header.buffer.HasCrcs [SectionHeader.crcOffset]
  signatures : SignatureDescriptor.tableSize ≤ sect.signatures.table.limit →
    sect.signatures.Sealed

/-- Refreshing a section that was told its count makes everything agree. -/
theorem Registered.consistent (registered : sect.Registered)
    (counts : sect.header.setSectionsRemaining count = .ok counted)
    (ran : Section.update { sect with header := counted } = .ok answer fresh) :
    fresh.Consistent count.toNat := by
  obtain ⟨length, measured, header, signatures, signed, encoded, measures, refreshes, freshens,
    links, rfl⟩ := update_eq_ok_iff.mp ran
  obtain ⟨stored, stores, rfl⟩ := SectionHeader.setSectionsRemaining_eq_ok_iff.mp counts
  obtain ⟨long, lengthens, rfl⟩ := SectionHeader.setSectionLength_eq_ok_iff.mp measures
  obtain ⟨sealed, seals, rfl⟩ := SectionHeader.update_eq_ok_iff.mp refreshes
  have crcs : long.crcAddresses = [SectionHeader.crcOffset] :=
    ((registered.header.setWord stores).setWord lengthens).crcAddresses
  have kept (start : Nat) (before : start + 4 ≤ SectionHeader.crcOffset) :
      sealed.getWord start = long.getWord start := by
    refine Buffer.getWord_updateCrc seals ?_
    rw [crcs]
    exact List.forall_mem_singleton.mpr (.inl before)
  obtain ⟨linked, -, closing⟩ :=
    SignatureDescriptor.linked_of_update freshens links (Bytes.length_sha384 _)
  refine ⟨linked, ⟨count, ?_, rfl⟩, ⟨length, ?_, Bytes.encodeLength_eq_ok_iff.mp encoded⟩, ?_,
    closing⟩
  · calc sealed.getWord SectionHeader.sectionsRemainingOffset
        = long.getWord SectionHeader.sectionsRemainingOffset := kept _ (by decide)
      _ = stored.getWord SectionHeader.sectionsRemainingOffset :=
        Buffer.getWord_setRaw lengthens (.inl (by decide))
      _ = .ok count := Buffer.getWord_setWord stores
  · exact (kept _ (by decide)).trans (Buffer.getWord_setWord lengthens)
  · rw [← crcs]
    exact Buffer.hasCrcs_updateCrc seals (crcs ▸ List.pairwise_singleton _ _)

/-- Telling a consistent section what it states changes nothing. -/
theorem Consistent.setSectionsRemaining_same (consistent : sect.Consistent following)
    (states : count.toNat = following) :
    sect.header.setSectionsRemaining count = .ok sect.header := by
  obtain ⟨stated, stands, exact⟩ := consistent.counted
  obtain rfl : stated = count := UInt32.toNat_inj.mp (exact.trans states.symm)
  obtain ⟨inside, there⟩ := Buffer.getWord_eq_ok_iff.mp stands
  exact SectionHeader.setSectionsRemaining_eq_ok_iff.mpr
    ⟨_, Buffer.setWord_of_wordAt inside there, rfl⟩

/-- Refreshing leaves a consistent section alone. -/
theorem Consistent.update_same (consistent : sect.Consistent following)
    (registered : sect.Registered)
    (table : ChainTable.update sect.signatures.table = .ok () sect.signatures.table)
    (room : SignatureDescriptor.tableSize ≤ sect.signatures.table.limit) :
    Section.update sect = .ok () sect := by
  obtain ⟨length, stands, exact⟩ := consistent.measured
  obtain ⟨inside, there⟩ := Buffer.getWord_eq_ok_iff.mp stands
  have isSealed := consistent.signatures room
  have measures : sect.header.setSectionLength length = .ok sect.header :=
    SectionHeader.setSectionLength_eq_ok_iff.mpr ⟨_, Buffer.setWord_of_wordAt inside there, rfl⟩
  have matching : sect.header.buffer.HasCrcs sect.header.buffer.crcAddresses :=
    registered.header.crcAddresses ▸ consistent.header
  have refreshes : Fragment.update sect.header = .ok () sect.header :=
    SectionHeader.update_eq_ok_iff.mpr ⟨_, Buffer.updateCrc_of_hasCrcs matching, rfl⟩
  exact update_eq_ok_iff.mpr ⟨length, sect.header, sect.header, sect.signatures, sect.signatures,
    Bytes.encodeLength_eq_ok_iff.mpr exact, measures, refreshes,
    SignatureDescriptor.update_same table isSealed,
    SignatureDescriptor.setBlock0Hash_same consistent.linked (Bytes.length_sha384 _) isSealed, rfl⟩

theorem Registered.table_update_again (registered : sect.Registered)
    (ran : Section.update { sect with header := counted } = .ok answer fresh) :
    ChainTable.update fresh.signatures.table = .ok () fresh.signatures.table := by
  obtain ⟨_, _, _, _, _, -, -, -, freshens, links, rfl⟩ := update_eq_ok_iff.mp ran
  exact registered.signatures.table_update_again freshens links

end Section

/-- A header that was told a number of sections and refreshed states it under matching checksums, and
telling it and refreshing it again changes nothing. -/
theorem ConfigurationHeader.recounted {header counted changed : ConfigurationHeader} {count : UInt32}
    (registers : header.buffer.Registers empty.buffer)
    (counts : header.setSectionsRemaining count = .ok counted)
    (refreshes : Fragment.update counted = .ok () changed) :
    changed.sectionsRemaining = .ok count ∧
      changed.buffer.HasCrcs [outerCrcOffset, innerCrcOffset] ∧
      changed.setSectionsRemaining count = .ok changed ∧
      Fragment.update changed = .ok () changed := by
  obtain ⟨stored, stores, rfl⟩ := setSectionsRemaining_eq_ok_iff.mp counts
  obtain ⟨sealed, seals, rfl⟩ := update_eq_ok_iff.mp refreshes
  have registersToo := registers.setWord stores
  have again := registersToo.updateCrc seals
  have stated : sealed.getWord sectionsRemainingOffset = .ok count := by
    rw [Buffer.getWord_updateCrc seals, Buffer.getWord_setWord stores]
    rw [registersToo.crcAddresses, crcAddresses_empty]
    unfold Buffer.Apart Buffer.Beside
    decide
  have matching := Buffer.hasCrcs_updateCrc seals (registersToo.spread spread_empty).apart
  rw [registersToo.crcAddresses] at matching
  obtain ⟨inside, there⟩ := Buffer.getWord_eq_ok_iff.mp stated
  refine ⟨stated, crcAddresses_empty ▸ matching, setSectionsRemaining_eq_ok_iff.mpr
    ⟨_, Buffer.setWord_of_wordAt inside there, rfl⟩, update_eq_ok_iff.mpr
    ⟨_, Buffer.updateCrc_of_hasCrcs ?_, rfl⟩⟩
  rw [again.crcAddresses]
  exact matching

namespace Configuration

variable {configuration changed : Configuration} {sections renewed : List Section} {answer : Unit}

/-- Each section agrees with itself and counts the sections behind it. -/
def ConsistentSections (sections : List Section) : Prop :=
  ∀ before sect behind, sections = before ++ sect :: behind → sect.Consistent behind.length

theorem consistentSections_cons {first : Section} :
    ConsistentSections (first :: sections) ↔
      first.Consistent sections.length ∧ ConsistentSections sections := by
  constructor
  · intro consistent
    refine ⟨consistent [] first sections rfl, fun before sect behind split => ?_⟩
    exact consistent (first :: before) sect behind (by rw [split, List.cons_append])
  · rintro ⟨here, others⟩ before sect behind split
    cases before with
    | nil =>
      obtain ⟨rfl, rfl⟩ := List.cons.inj split
      exact here
    | cons other before =>
      obtain ⟨-, rest⟩ := List.cons.inj split
      exact others before sect behind rest

/-- Refreshing sections makes each agree with itself and with its place, and refreshing them once
more changes nothing. -/
theorem updateSections_consistent (registered : ∀ sect ∈ sections, sect.Registered)
    (few : sections.length < 2 ^ 32) (ran : updateSections sections = .ok answer renewed) :
    ConsistentSections renewed ∧
      ((∀ sect ∈ renewed, SignatureDescriptor.tableSize ≤ sect.signatures.table.limit) →
        updateSections renewed = .ok () renewed) := by
  induction sections generalizing renewed with
  | nil =>
    obtain ⟨-, rfl⟩ : answer = () ∧ [] = renewed := by simpa [updateSections] using ran
    exact ⟨fun _ _ _ split => by simp at split, fun _ => rfl⟩
  | cons first later ih =>
    obtain ⟨registeredFirst, others⟩ := List.forall_mem_cons.mp registered
    obtain ⟨counted, fresh, rest, counts, updated, renews, rfl⟩ :=
      updateSections_cons_eq_ok_iff.mp ran
    have fewer : later.length < 2 ^ 32 := Nat.lt_of_succ_lt few
    have exact : (UInt32.ofNat later.length).toNat = later.length :=
      UInt32.toNat_ofNat_of_lt' fewer
    have length : rest.length = later.length := length_updateSections renews
    obtain ⟨consistent, again⟩ := ih others fewer renews
    have here := registeredFirst.consistent counts updated
    rw [exact, ← length] at here
    refine ⟨consistentSections_cons.mpr ⟨here, consistent⟩, fun roomy => ?_⟩
    obtain ⟨room, roomyRest⟩ := List.forall_mem_cons.mp roomy
    obtain ⟨registeredFresh, -⟩ := (updateSections_registered registered ran) fresh
      List.mem_cons_self
    rw [← length] at exact
    exact updateSections_cons_eq_ok_iff.mpr ⟨fresh.header, fresh, rest,
      here.setSectionsRemaining_same exact,
      here.update_same registeredFresh (registeredFirst.table_update_again updated) room,
      again roomyRest, rfl⟩

/-- What a configuration states about itself is so: the digests of the headers, the numbers of
sections from the header down to the last section, the lengths and every checksum. The checksum of
signatures is promised for tables of at least the size of a new one. -/
structure Consistent (configuration : Configuration) : Prop where
  linked : configuration.signatures.block0Hash = .ok (Fragment.sha384 configuration.header)
  counted : ∃ count, configuration.header.sectionsRemaining = .ok count ∧
    count.toNat = configuration.sections.length
  header : configuration.header.buffer.HasCrcs
    [ConfigurationHeader.outerCrcOffset, ConfigurationHeader.innerCrcOffset]
  signatures : SignatureDescriptor.tableSize ≤ configuration.signatures.table.limit →
    configuration.signatures.Sealed
  sections : ConsistentSections configuration.sections

/-- No table is smaller than a new one. -/
def Roomy (configuration : Configuration) : Prop :=
  ∀ signatures ∈ configuration.signatures :: configuration.sections.map Section.signatures,
    SignatureDescriptor.tableSize ≤ signatures.table.limit

/-- Refreshing makes everything agree that a configuration states about itself, whatever was done to
its parts before, and if no table is smaller than a new one, refreshing once more changes nothing. -/
theorem update_consistent (configuration changed : Configuration)
    (registered : configuration.Registered) (few : configuration.sections.length < 2 ^ 32)
    (updated : update configuration = .ok () changed) :
    changed.sections.length = configuration.sections.length ∧ changed.Consistent ∧
      (changed.Roomy → update changed = .ok () changed) := by
  obtain ⟨sections, counted, header, fresh, signed, renews, counts, refreshes, freshens, links, rfl⟩ :=
    update_eq_ok_iff.mp updated
  obtain ⟨consistent, sectionsAgain⟩ := updateSections_consistent registered.sections few renews
  have length : sections.length = configuration.sections.length := length_updateSections renews
  have exact : (UInt32.ofNat sections.length).toNat = sections.length :=
    UInt32.toNat_ofNat_of_lt' (length ▸ few)
  obtain ⟨stated, matching, countsAgain, refreshesAgain⟩ :=
    ConfigurationHeader.recounted registered.header counts refreshes
  obtain ⟨linked, -, closing⟩ :=
    SignatureDescriptor.linked_of_update freshens links (Bytes.length_sha384 _)
  refine ⟨length, ⟨linked, ⟨_, stated, exact⟩, matching, closing, consistent⟩, fun roomy => ?_⟩
  obtain ⟨room, roomySections⟩ := List.forall_mem_cons.mp roomy
  have table := registered.signatures.table_update_again freshens links
  exact update_eq_ok_iff.mpr ⟨sections, header, header, signed, signed,
    sectionsAgain fun sect member => roomySections _ (List.mem_map_of_mem member),
    countsAgain, refreshesAgain, SignatureDescriptor.update_same table (closing room),
    SignatureDescriptor.setBlock0Hash_same linked (Bytes.length_sha384 _) (closing room), rfl⟩

/-- A refreshed configuration with two sections, one of them without payload. -/
theorem update_consistent_twoSections :
    ∃ before configuration : Configuration, before.Registered ∧ before.sections.length = 2 ∧
      update before = .ok () configuration ∧
      configuration.sections.map (·.payload.bytes) = [[0, 17, 34, 51], []] ∧
      configuration.Consistent ∧ update configuration = .ok () configuration := by
  obtain ⟨before, configuration, registered, updated, valid, payloads, -⟩ :=
    @refreshed_exists [(1, [0, 17, 34, 51]), (2, [])] (by decide) (by decide) []
  have two : before.sections.length = 2 := by
    obtain ⟨_, _, _, _, _, renews, -, -, -, -, rfl⟩ := update_eq_ok_iff.mp updated
    rw [← length_updateSections renews]
    simpa using congrArg List.length payloads
  have few : before.sections.length < 2 ^ 32 := by
    rw [two]
    decide
  obtain ⟨-, consistent, again⟩ := update_consistent before configuration registered few updated
  have refreshed := registered.update updated valid
  obtain ⟨-, validSignatures, -⟩ := validateParts_eq_ok_iff.mp (validate_eq_ok_iff.mp valid).1
  have roomy : configuration.Roomy := by
    refine List.forall_mem_cons.mpr
      ⟨Nat.le_of_eq ((refreshed.signatures.steady validSignatures).sizes validSignatures).2.1.symm, ?_⟩
    refine List.forall_mem_map.mpr fun sect member => ?_
    have fine := refreshed.sections sect member
    obtain ⟨⟨-, validSection, -⟩, -⟩ := Section.validate_eq_ok_iff.mp fine.valid
    exact Nat.le_of_eq ((fine.registered.signatures.steady validSection).sizes validSection).2.1.symm
  exact ⟨before, configuration, registered, two, updated, payloads, consistent, again roomy⟩

end Configuration

namespace SignatureDescriptor

variable {descriptor changed : SignatureDescriptor} {word : UInt32} {answer : Unit}

/-- What stands before the checksum word. -/
def front (descriptor : SignatureDescriptor) : Bytes :=
  descriptor.header.bytes ++ Fragment.toBytes descriptor.table

/-- The table is a word too small, so that the checksum covers its own word. -/
structure SelfCovering (descriptor : SignatureDescriptor) (word : UInt32) : Prop where
  front : descriptor.front.length + crcSize = crcOffset
  word : descriptor.crc.bytes = Bytes.ofWord word

theorem SelfCovering.computedCrc_eq (covers : descriptor.SelfCovering word) :
    descriptor.computedCrc = .ok (Bytes.crc32 (descriptor.front ++ Bytes.ofWord word)) := by
  have bytes : Fragment.toBytes descriptor = descriptor.front ++ Bytes.ofWord word := by
    rw [toBytes_eq, covers.word, SignatureDescriptor.front, List.append_assoc]
  have whole : (descriptor.front ++ Bytes.ofWord word).length = crcOffset := by
    rw [List.length_append, Bytes.length_ofWord]
    exact covers.front
  have size : Composite.size descriptor = crcOffset := by
    rw [← whole, ← bytes]
    exact (Fragment.Lawful.length_toBytes descriptor).symm
  refine computedCrc_eq_ok_iff.mpr ⟨Nat.le_of_eq size.symm, ?_⟩
  rw [bytes, List.take_of_length_le (Nat.le_of_eq whole)]

/-- The checksum that is stored is that of the word it replaces. -/
theorem SelfCovering.updateCrc (covers : descriptor.SelfCovering word) :
    ∃ changed, SignatureDescriptor.updateCrc descriptor = .ok () changed ∧
      changed.header = descriptor.header ∧ changed.table = descriptor.table ∧
      changed.SelfCovering (Bytes.crc32 (descriptor.front ++ Bytes.ofWord word)) := by
  have four (word : UInt32) : (Bytes.ofWord word).length = 4 := Bytes.length_ofWord word
  have room : 4 ≤ descriptor.crc.size := by
    rw [Buffer.size, covers.word, four]
  refine ⟨_, updateCrc_eq_ok_iff.mpr ⟨_, covers.computedCrc_eq, room, rfl⟩, rfl, rfl,
    covers.front, ?_⟩
  rw [covers.word, Bytes.splice, List.take_zero, List.nil_append,
    List.drop_eq_nil_of_le (by rw [four, four]), List.append_nil]

theorem SelfCovering.sealed_iff (covers : descriptor.SelfCovering word) :
    descriptor.Sealed ↔ Bytes.crc32 (descriptor.front ++ Bytes.ofWord word) = word := by
  have stored : descriptor.storedCrc = .ok word := by
    refine Buffer.getWord_eq_ok_iff.mpr ⟨?_, ?_⟩
    · rw [Buffer.size, covers.word, Bytes.length_ofWord]
    · rw [covers.word, Bytes.wordAt, Bytes.slice_zero,
        List.take_of_length_le (Nat.le_of_eq (Bytes.length_ofWord word)), Bytes.toWord_ofWord]
  rw [Sealed, covers.computedCrc_eq, stored]
  simp [eq_comm]

/-- New signatures with another table and checksum word. -/
def ofTable (table : ChainTable) (word : UInt32) : SignatureDescriptor :=
  ⟨newHeader .classic, table, { empty.crc with bytes := Bytes.ofWord word }⟩

theorem standard_ofTable {table : ChainTable} (standard : table.Standard) (word : UInt32) :
    (ofTable table word).Standard where
  header := follows_newHeader .classic
  table := standard
  crc := ⟨rfl, fun _ bounded =>
    Nat.le_of_eq ((Bytes.length_ofWord word).trans (Option.some.inj bounded))⟩
  complete := .inr rfl

/-- With a table a word too small, refreshing and storing a digest succeed for every checksum word that
stood there before, and for some of them the checksum does not match afterwards. -/
theorem exists_ofTable_not_sealed {table refreshed : ChainTable} {hash : Bytes}
    (freshens : ChainTable.update table = .ok () refreshed) (small : table.limit + 4 = tableSize)
    (whole : hash.length = block0HashSize) :
    ∃ word fresh signed, update (ofTable table word) = .ok () fresh ∧
      setBlock0Hash hash fresh = .ok () signed ∧ ¬ signed.Sealed := by
  obtain ⟨digested, written⟩ : ∃ digested, (newHeader .classic).setRaw hash block0HashOffset =
      .ok digested := by
    refine ⟨_, Buffer.setRaw_eq_ok_iff.mpr ⟨?_, rfl⟩⟩
    rw [whole]
    decide
  have covers {descriptor : SignatureDescriptor} {word : UInt32}
      (sized : descriptor.header.size = headerSize) (table : descriptor.table = refreshed)
      (there : descriptor.crc.bytes = Bytes.ofWord word) : descriptor.SelfCovering word := by
    refine ⟨?_, there⟩
    obtain ⟨filled, -⟩ := ChainTable.size_update freshens
    have sum : crcOffset = headerSize + tableSize := rfl
    rw [front, List.length_append, Fragment.Lawful.length_toBytes, table, sum, ← small, ← filled,
      ← sized]
    exact Nat.add_assoc _ _ _
  -- The first checksum word is chosen so that the one it leads to is not its own checksum.
  obtain ⟨moved, moves⟩ :=
    Bytes.exists_crc32_word_ne (digested.bytes ++ Fragment.toBytes refreshed)
  obtain ⟨word, leads⟩ := Bytes.crc32_word_surjective
    ((newHeader .classic).bytes ++ Fragment.toBytes refreshed) moved
  have begins : SelfCovering { ofTable table word with table := refreshed } word :=
    covers rfl rfl rfl
  obtain ⟨fresh, stored, sameHeader, sameTable, coversFresh⟩ := begins.updateCrc
  have linkable : SelfCovering { fresh with header := digested } moved :=
    covers (Buffer.size_setRaw written) sameTable (leads ▸ coversFresh.word)
  obtain ⟨signed, storedToo, keptHeader, keptTable, coversSigned⟩ := linkable.updateCrc
  have digests : fresh.header.setRaw hash block0HashOffset = .ok digested := by
    rw [sameHeader]
    exact written
  have shown : signed.front = digested.bytes ++ Fragment.toBytes refreshed := by
    rw [front, keptHeader, keptTable]
    exact congrArg (fun table => digested.bytes ++ Fragment.toBytes table) sameTable
  have before : SignatureDescriptor.front { fresh with header := digested } = signed.front := by
    rw [front, front, keptHeader, keptTable]
  refine ⟨word, fresh, signed, update_eq_ok_iff.mpr ⟨refreshed, freshens, stored⟩,
    setBlock0Hash_eq_ok_iff.mpr ⟨digested, digests, storedToo⟩, fun isSealed => moves ?_⟩
  have own := coversSigned.sealed_iff.mp isSealed
  rw [before] at own
  rw [← shown]
  exact Bytes.crc32_word_injective signed.front own

end SignatureDescriptor

/-- Refreshing a configuration whose table is a word too small succeeds, and the checksum of the
signatures need not match afterwards. -/
theorem Configuration.smallTable_not_sealed :
    ∃ header table word changed, ConfigurationHeader.reset.result .empty = .ok header ∧
      ChainTable.create .classic (SignatureDescriptor.tableSize - 4) = .ok table ∧
      Registered ⟨header, .ofTable table word, [], Buffer.empty none⟩ ∧
      update ⟨header, .ofTable table word, [], Buffer.empty none⟩ = .ok () changed ∧
      ¬ changed.signatures.Sealed := by
  obtain ⟨header, made, standard, signable, -⟩ := ConfigurationHeader.reset_exists
  obtain ⟨counted, changed, counts, refreshes, -⟩ := standard.recount_exists signable 0
  obtain ⟨table, created, standardTable, -, valid, -, limit, -⟩ :=
    ChainTable.create_exists .classic
      (show Size.chainTableHeader ≤ SignatureDescriptor.tableSize - 4 by decide)
  obtain ⟨slotHeader, slots, ⟨-, each, -⟩, -, filled⟩ := ChainTable.validate_eq_ok_iff.mp valid
  have fits : Size.chainTableHeader + Fragment.totalSize table.chains ≤ table.limit := by
    rw [ChainTable.size_eq, slotHeader] at filled
    omega
  obtain ⟨refreshed, freshens, -⟩ := (standardTable.steady each).update_exists each slotHeader slots fits
  have small : table.limit + 4 = SignatureDescriptor.tableSize := by
    rw [limit]
    rfl
  obtain ⟨word, fresh, signed, updates, links, loose⟩ :=
    SignatureDescriptor.exists_ofTable_not_sealed freshens small
      (show (Fragment.sha384 changed).length = _ from Bytes.length_sha384 _)
  refine ⟨header, table, word, ⟨changed, signed, [], Buffer.empty none⟩, made, created,
    ⟨Buffer.Follows.registers standard, SignatureDescriptor.standard_ofTable standardTable word,
      List.forall_mem_nil _⟩, ?_, loose⟩
  exact update_eq_ok_iff.mpr
    ⟨[], counted, changed, fresh, signed, rfl, counts, refreshes, updates, links, rfl⟩

end SecureBoot
