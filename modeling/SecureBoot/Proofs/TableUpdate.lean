import SecureBoot.Proofs.Table

/-!
Refreshing chain tables. The slots that are stored are the ones that are checked, so a table of valid
chains that fits becomes valid, and it is filled up with zeros.
-/

namespace SecureBoot.ChainTable

variable {table changed : ChainTable} {chains : List SignatureChain} {slots : List (UInt32 × UInt32)}
  {format : ChainFormat} {header stored blank : Buffer} {address index : Nat} {count offset : UInt32} {answer : Unit}

/-- The padding of a table with the given room. -/
def paddingOf (room : Nat) : Buffer :=
  { Buffer.empty (some room) with bytes := Bytes.zeros room }

@[simp] theorem size_paddingOf (room : Nat) : (paddingOf room).size = room :=
  Bytes.length_zeros room

theorem validate_paddingOf (room : Nat) : (paddingOf room).validate = .ok () := by
  have follows : (paddingOf room).Follows (Buffer.empty (some room)) :=
    ⟨rfl, fun most bounded => Nat.le_of_eq ((size_paddingOf room).trans (Option.some.inj bounded))⟩
  exact follows.validate_of_plain rfl rfl

theorem padded_iff : table.Padded ↔ table.padding = paddingOf table.padding.size :=
  Iff.rfl

theorem reset_paddingOf (room : Nat) :
    Buffer.reset room (Buffer.empty (some room)) = .ok () (paddingOf room) := by
  have fits : checkBound room (some room) = .ok () := require_of (Nat.le_refl room)
  simp only [Buffer.reset, Edit.bind_eq_ok_iff, Edit.ask_eq_ok_iff, Edit.modify_eq_ok_iff]
  exact ⟨(), _, ⟨fits, rfl⟩, (), _, rfl, rfl⟩

/-- Store one slot. -/
def storeSlot (format : ChainFormat) (address : Nat) (count offset : UInt32) : Edit Buffer Unit := do
  match format with
  | .classic =>
    Edit.change (·.setWord count address)
    Edit.change (·.setWord offset (address + 4))
  | .multiRoot => Edit.change (·.setWord offset address)

theorem storeSlots_cons :
    storeSlots format address ((count, offset) :: slots) = (do
      storeSlot format address count offset
      storeSlots format (address + format.slotSize) slots) := by
  cases format <;> simp [storeSlots, storeSlot]

/-- A slot stands at an address. -/
def HoldsSlot (format : ChainFormat) (address : Nat) (count offset : UInt32) (bytes : Bytes) : Prop :=
  match format with
  | .classic => Bytes.wordAt bytes address = count ∧ Bytes.wordAt bytes (address + 4) = offset
  | .multiRoot => Bytes.wordAt bytes address = offset

theorem storeSlot_eq_ok (ran : storeSlot format address count offset header = .ok answer stored) :
    address + format.slotSize ≤ header.size ∧
      stored = { header with bytes := stored.bytes } ∧ stored.size = header.size ∧
      HoldsSlot format address count offset stored.bytes ∧
      ∀ before, before + 4 ≤ address →
        Bytes.wordAt stored.bytes before = Bytes.wordAt header.bytes before := by
  cases format with
  | classic =>
    simp only [storeSlot, Edit.bind_eq_ok_iff, Edit.change_eq_ok_iff, Buffer.setWord_eq_ok_iff] at ran
    obtain ⟨_, _, ⟨inside, rfl⟩, insideToo, rfl⟩ := ran
    simp only [Buffer.size, Bytes.length_splice_ofWord inside] at insideToo
    have fits : address + 4 + 4 ≤
        (Bytes.splice header.bytes address (Bytes.ofWord count)).length := by
      rwa [Bytes.length_splice_ofWord inside]
    refine ⟨insideToo, rfl, ?_, ⟨?_, Bytes.wordAt_splice fits⟩, fun before below => ?_⟩
    · rw [Buffer.size, Bytes.length_splice_ofWord fits, Bytes.length_splice_ofWord inside]
      rfl
    · rw [Bytes.wordAt_splice_ofWord_of_disjoint fits (.inl (Nat.le_refl _)),
        Bytes.wordAt_splice inside]
    · rw [Bytes.wordAt_splice_ofWord_of_disjoint fits (.inl (by omega)),
        Bytes.wordAt_splice_ofWord_of_disjoint inside (.inl below)]
  | multiRoot =>
    simp only [storeSlot, Edit.change_eq_ok_iff, Buffer.setWord_eq_ok_iff] at ran
    obtain ⟨inside, rfl⟩ := ran
    refine ⟨inside, rfl, ?_, Bytes.wordAt_splice inside, fun before below => ?_⟩
    · rw [Buffer.size, Bytes.length_splice_ofWord inside]
      rfl
    · rw [Bytes.wordAt_splice_ofWord_of_disjoint inside (.inl below)]

theorem storeSlot_exists (inside : address + format.slotSize ≤ header.size) :
    ∃ stored, storeSlot format address count offset header = .ok () stored := by
  cases format with
  | classic =>
    have first : address + 4 ≤ header.size := Nat.le_trans (by simp [ChainFormat.slotSize]) inside
    simp only [storeSlot, Edit.bind_eq_ok_iff, Edit.change_eq_ok_iff, Buffer.setWord_eq_ok_iff]
    refine ⟨_, (), _, ⟨first, rfl⟩, ?_, rfl⟩
    rw [Buffer.size, Bytes.length_splice_ofWord first]
    exact inside
  | multiRoot =>
    simp only [storeSlot, Edit.change_eq_ok_iff, Buffer.setWord_eq_ok_iff]
    exact ⟨_, inside, rfl⟩

/-- The slot that stands at the address of an index is the one that is looked up there. -/
theorem HoldsSlot.looked_up (holds : HoldsSlot table.format (index * table.format.slotSize) count offset
      table.header.bytes)
    (inside : index * table.format.slotSize + table.format.slotSize ≤ table.header.size) :
    table.chainOffset index = .ok offset ∧ ∃ stored, table.chainEntryCount index = .ok stored ∧
      (stored = none ∨ stored = some count) := by
  cases layout : table.format with
  | classic =>
    rw [layout] at holds inside
    obtain ⟨counted, placed⟩ := holds
    have first : index * ChainFormat.classic.slotSize + 4 ≤ table.header.size :=
      Nat.le_trans (by simp [ChainFormat.slotSize]) inside
    simp only [chainOffset, chainEntryCount, layout, bind_eq_ok_iff, pure_eq_ok_iff,
      Buffer.getWord_eq_ok_iff]
    exact ⟨⟨inside, placed⟩, some count, ⟨count, ⟨first, counted⟩, rfl⟩, .inr rfl⟩
  | multiRoot =>
    rw [layout] at holds inside
    simp only [chainOffset, chainEntryCount, layout, Buffer.getWord_eq_ok_iff]
    exact ⟨⟨inside, holds⟩, none, rfl, .inl rfl⟩

/-- Only the words of the slot matter. -/
theorem HoldsSlot.mono {bytes other : Bytes} (holds : HoldsSlot format address count offset bytes)
    (same : ∀ before, before + 4 ≤ address + format.slotSize →
      Bytes.wordAt other before = Bytes.wordAt bytes before) :
    HoldsSlot format address count offset other := by
  cases format with
  | classic =>
    obtain ⟨counted, placed⟩ := holds
    exact ⟨(same _ (by simp [ChainFormat.slotSize])).trans counted,
      (same _ (Nat.le_refl _)).trans placed⟩
  | multiRoot => exact (same _ (Nat.le_refl _)).trans holds

/-- Storing slots in a header with room for them leaves what stands before, and they check. -/
theorem storeSlots_checks (room : address + slots.length * format.slotSize ≤ header.size)
    (aligned : address = index * format.slotSize) :
    ∃ stored, storeSlots format address slots header = .ok () stored ∧
      stored = { header with bytes := stored.bytes } ∧ stored.size = header.size ∧
      (∀ before, before + 4 ≤ address →
        Bytes.wordAt stored.bytes before = Bytes.wordAt header.bytes before) ∧
      ∀ table : ChainTable, table.format = format → table.header = stored →
        table.checkSlots index slots = .ok () := by
  induction slots generalizing header address index with
  | nil => exact ⟨header, rfl, rfl, rfl, fun _ _ => rfl, fun _ _ _ => rfl⟩
  | cons first later ih =>
    obtain ⟨count, offset⟩ := first
    rw [List.length_cons, Nat.succ_mul] at room
    obtain ⟨between, stores⟩ : ∃ between, storeSlot format address count offset header =
        .ok () between := storeSlot_exists (by omega)
    obtain ⟨-, layout, size, holds, kept⟩ := storeSlot_eq_ok stores
    have next : address + format.slotSize = (index + 1) * format.slotSize := by
      rw [aligned, Nat.succ_mul]
    have left : address + format.slotSize + later.length * format.slotSize ≤ between.size := by
      rw [size]
      omega
    obtain ⟨stored, ran, again, same, frame, checks⟩ := ih left next
    refine ⟨stored, ?_, ?_, same.trans size, fun before below => ?_, fun table shape held => ?_⟩
    · rw [storeSlots_cons, Edit.bind_of_ok stores, ran]
    · rw [again, layout]
    · rw [frame before (by omega), kept before below]
    · subst shape held
      rw [aligned] at holds frame
      obtain ⟨found, counted⟩ := (holds.mono frame).looked_up (by
        rw [same, size, ← aligned]
        omega)
      exact checkSlots_cons_iff.mpr ⟨found, counted, checks table rfl rfl⟩

theorem storeSlots_follows (follows : header.Follows blank)
    (ran : storeSlots format address slots header = .ok answer stored) :
    stored.Follows blank ∧ stored.size = header.size := by
  induction slots generalizing header address with
  | nil =>
    simp only [storeSlots, Edit.pure_eq_ok_iff] at ran
    exact ran.2 ▸ ⟨follows, rfl⟩
  | cons first later ih =>
    obtain ⟨count, offset⟩ := first
    rw [storeSlots_cons, Edit.bind_eq_ok_iff] at ran
    obtain ⟨_, between, stores, ran⟩ := ran
    obtain ⟨-, layout, size, -⟩ := storeSlot_eq_ok stores
    have fits : ∀ most, blank.limit = some most → between.bytes.length ≤ most := by
      intro most bounded
      exact Nat.le_trans (Nat.le_of_eq size) (follows.bounded most bounded)
    have middle : between.Follows blank := layout ▸ follows.withBytes fits
    obtain ⟨again, same⟩ := ih middle ran
    exact ⟨again, same.trans size⟩

/-- Refreshing a table refreshes the chains, stores their slots and fills the table up. -/
theorem update_eq_ok_iff :
    update table = .ok answer changed ↔
      ∃ chains header, List.Forall₂ (fun chain other => Fragment.update chain = .ok () other)
          table.chains chains ∧
        storeSlots table.format 0 (layoutFrom Size.chainTableHeader chains) table.header =
          .ok () header ∧
        header.size + Fragment.totalSize chains ≤ table.limit ∧
        { table with
          chains := chains
          header := header
          padding := paddingOf (table.limit - (header.size + Fragment.totalSize chains)) } =
            changed := by
  simp only [update, updateHeader, pad, Edit.bind_eq_ok_iff, Edit.get_eq_ok_iff, Edit.ask_eq_ok_iff,
    Edit.modify_eq_ok_iff, room, bind_eq_ok_iff, require_eq_ok_iff, exists_unit_iff, pure_eq_ok_iff]
  constructor
  · rintro ⟨_, ranChains, _, ⟨_, _, ⟨rfl, rfl⟩, ranHeader⟩, ran⟩
    obtain ⟨chains, each, rfl⟩ := Edit.within_eq_ok_iff.mp ranChains
    obtain ⟨header, stores, rfl⟩ := Edit.within_eq_ok_iff.mp ranHeader
    obtain ⟨_, _, ⟨⟨fits, rfl⟩, rfl⟩, _, rfl, ranPadding⟩ := ran
    obtain ⟨padding, filled, rfl⟩ := Edit.within_eq_ok_iff.mp ranPadding
    have same := (reset_paddingOf _).symm.trans filled
    simp only [EStateM.Result.ok.injEq, true_and] at same
    exact ⟨chains, header, Edit.each_eq_ok_iff.mp each, stores, fits, by rw [← same]; rfl⟩
  · rintro ⟨chains, header, each, stores, fits, rfl⟩
    refine ⟨_, Edit.within_eq_ok_iff.mpr ⟨chains, Edit.each_eq_ok_iff.mpr each, rfl⟩, _,
      ⟨_, _, ⟨rfl, rfl⟩, Edit.within_eq_ok_iff.mpr ⟨header, stores, rfl⟩⟩, _, _, ⟨⟨fits, rfl⟩, rfl⟩,
      _, rfl, Edit.within_eq_ok_iff.mpr ⟨_, reset_paddingOf _, rfl⟩⟩

/-- Refreshing keeps the layout of a table and fills it up with zeros. -/
theorem Standard.update (standard : table.Standard)
    (ran : ChainTable.update table = .ok answer changed) :
    changed.Standard ∧ changed.Padded ∧ changed.format = table.format ∧
      changed.limit = table.limit := by
  obtain ⟨chains, header, each, stores, -, rfl⟩ := update_eq_ok_iff.mp ran
  refine ⟨⟨(storeSlots_follows standard.header stores).1, ?_⟩, ?_, rfl, rfl⟩
  · exact Edit.forall_of_forall₂ (fun chain member other ran =>
      (standard.chains chain member).update ran) each
  · rw [padded_iff, size_paddingOf]

/-- Refreshing shows in no valid chain. -/
theorem refreshed_eq {renewed : List SignatureChain}
    (each : ∀ chain ∈ chains, chain.validate = .ok ())
    (ran : List.Forall₂ (fun chain other => Fragment.update chain = .ok () other) chains renewed) :
    renewed = chains := by
  induction ran with
  | nil => rfl
  | cons first _ ih =>
    obtain ⟨valid, others⟩ := List.forall_mem_cons.mp each
    rw [SignatureChain.update_same valid first, ih others]

/-- The valid chain in a slot stays there. -/
theorem chain?_update (ran : ChainTable.update table = .ok answer changed)
    (there : table.chain? index = some chain) (valid : chain.validate = .ok ()) :
    changed.chain? index = some chain := by
  obtain ⟨chains, header, each, -, -, rfl⟩ := update_eq_ok_iff.mp ran
  obtain ⟨inside, found⟩ := List.getElem?_eq_some_iff.mp there
  have insideToo : index < chains.length := each.length_eq ▸ inside
  have refreshed := each.get inside insideToo
  have same : chains[index] = chain := by
    simp only [List.get_eq_getElem, found] at refreshed
    exact SignatureChain.update_same valid refreshed
  exact List.getElem?_eq_some_iff.mpr ⟨insideToo, same⟩

/-- A valid chain is added in the first slot without entries. -/
theorem add_eq_ok_iff :
    table.add chain = .ok (index, changed) ↔
      chain.validate = .ok () ∧ table.chains.findIdx? SignatureChain.isEmpty = some index ∧
        ChainTable.update { table with chains := table.chains.set index chain } =
          .ok () changed := by
  rw [add, bind_eq_ok_iff, exists_unit_iff]
  refine and_congr_right fun _ => ?_
  cases slot : table.chains.findIdx? SignatureChain.isEmpty with
  | none => simp
  | some free =>
    simp only [bind_eq_ok_iff, Edit.result_eq_ok_iff, pure_eq_ok_iff, Prod.mk.injEq,
      exists_unit_iff, Option.some.injEq]
    constructor
    · rintro ⟨_, ran, rfl, rfl⟩
      exact ⟨rfl, ran⟩
    · rintro ⟨rfl, ran⟩
      exact ⟨changed, ran, rfl, rfl⟩

theorem chain?_add (ran : table.add chain = .ok (index, changed)) :
    chain.validate = .ok () ∧ changed.chain? index = some chain := by
  obtain ⟨valid, free, updated⟩ := add_eq_ok_iff.mp ran
  have inside : index < table.chains.length := (List.findIdx?_eq_some_iff_getElem.mp free).1
  have there : { table with chains := table.chains.set index chain }.chain? index = some chain :=
    List.getElem?_set_self inside
  exact ⟨valid, chain?_update updated there valid⟩

theorem length_layoutFrom (next : Nat) (chains : List SignatureChain) :
    (layoutFrom next chains).length = chains.length := by
  induction chains generalizing next with
  | nil => rfl
  | cons first later ih => rw [layoutFrom_cons, List.length_cons, List.length_cons, ih]

/-- The header is laid out like a new one, and refreshing leaves every chain alone. -/
structure Steady (table : ChainTable) : Prop where
  header : table.header.Follows (expecting table.format table.limit).header
  chains : ∀ chain ∈ table.chains, Fragment.update chain = .ok () chain

theorem Standard.steady (standard : table.Standard)
    (each : ∀ chain ∈ table.chains, chain.validate = .ok ()) : table.Steady where
  header := standard.header
  chains chain member := (standard.chains chain member).update_of_valid (each chain member)

/-- A table of valid chains that fits is refreshed to a valid one with the same chains. -/
theorem Steady.update_exists (steady : table.Steady)
    (each : ∀ chain ∈ table.chains, chain.validate = .ok ())
    (header : table.header.size = Size.chainTableHeader)
    (slots : table.chains.length = table.format.chainCount)
    (fits : Size.chainTableHeader + Fragment.totalSize table.chains ≤ table.limit) :
    ∃ changed, ChainTable.update table = .ok () changed ∧ changed.chains = table.chains ∧
      changed.format = table.format ∧ changed.limit = table.limit ∧ changed.Steady ∧
      changed.validate = .ok () := by
  have same : List.Forall₂ (fun chain other => Fragment.update chain = .ok () other)
      table.chains table.chains :=
    List.forall₂_same.mpr steady.chains
  have room : 0 + table.layout.length * table.format.slotSize ≤ table.header.size := by
    rw [layout, length_layoutFrom, slots, ChainFormat.chainCount_mul_slotSize, header]
    exact Nat.le_of_eq (Nat.zero_add _)
  have aligned : 0 = 0 * table.format.slotSize := (Nat.zero_mul _).symm
  obtain ⟨stored, stores, shape, size, -, checks⟩ := storeSlots_checks room aligned
  have follows : stored.Follows (expecting table.format table.limit).header :=
    (storeSlots_follows steady.header stores).1
  have fitsToo : stored.size + Fragment.totalSize table.chains ≤ table.limit := by
    rw [size, header]
    exact fits
  have updated : ChainTable.update table = .ok () { table with
      header := stored
      padding := paddingOf (table.limit - (stored.size + Fragment.totalSize table.chains)) } :=
    update_eq_ok_iff.mpr ⟨table.chains, stored, same, stores, fitsToo, rfl⟩
  refine ⟨_, updated, rfl, rfl, rfl, ⟨follows, steady.chains⟩, ?_⟩
  refine validate_eq_ok_iff.mpr ⟨size.trans header, slots,
    ⟨follows.validate_of_plain rfl rfl, each, validate_paddingOf _⟩, checks _ rfl rfl, ?_⟩
  rw [size_eq, size_paddingOf, ← Nat.add_assoc]
  exact Nat.add_sub_cancel' fitsToo

/-- Empty chains take no space. -/
theorem totalSize_replicate_empty (count : Nat) :
    Fragment.totalSize (List.replicate count SignatureChain.empty) = 0 := by
  induction count with
  | zero => rfl
  | succ count ih =>
    rw [List.replicate_succ, Fragment.totalSize, ih]
    rfl

/-- A new table has empty chains and is valid. -/
theorem create_exists (format : ChainFormat) {limit : Nat} (room : Size.chainTableHeader ≤ limit) :
    ∃ table, create format limit = .ok table ∧ table.Standard ∧ table.Padded ∧
      table.validate = .ok () ∧ table.format = format ∧ table.limit = limit ∧
      table.chains = List.replicate format.chainCount SignatureChain.empty := by
  have reset : Buffer.reset Size.chainTableHeader (expecting format limit).header =
      .ok () { (expecting format limit).header with bytes := Bytes.zeros Size.chainTableHeader } := rfl
  let begun : ChainTable := { expecting format limit with
    header := { (expecting format limit).header with bytes := Bytes.zeros Size.chainTableHeader }
    chains := List.replicate format.chainCount SignatureChain.empty }
  have blank : ∀ chain ∈ begun.chains, chain = SignatureChain.empty := fun chain member =>
    List.eq_of_mem_replicate member
  have standard : begun.Standard := by
    refine ⟨⟨rfl, fun most bounded => ?_⟩, fun chain member => ?_⟩
    · rw [← Option.some.inj bounded]
      exact Nat.le_of_eq (Bytes.length_zeros _)
    · rw [blank chain member]
      exact SignatureChain.standard_expecting (some 0)
  have unfilled : Fragment.totalSize begun.chains = 0 := totalSize_replicate_empty format.chainCount
  have valid : ∀ chain ∈ begun.chains, chain.validate = .ok () := fun chain member => by
    rw [blank chain member]
    exact SignatureChain.validate_empty
  obtain ⟨table, updated, chains, -, -, -, valid⟩ := (standard.steady valid).update_exists valid
    (Bytes.length_zeros _) List.length_replicate (by rw [unfilled]; exact room)
  obtain ⟨again, padded, sameFormat, sameLimit⟩ := standard.update updated
  refine ⟨table, ?_, again, padded, valid, sameFormat, sameLimit, chains⟩
  simp only [create, Edit.result_eq_ok_iff, Edit.bind_eq_ok_iff, Edit.modify_eq_ok_iff]
  exact ⟨(), (), _, Edit.within_eq_ok_iff.mpr ⟨_, reset, rfl⟩, (), _, rfl, updated⟩

end SecureBoot.ChainTable
