import SecureBoot.Proofs.TableUpdate

/-!
The slots of a chain table. The header of a valid table says where each chain stands: the populated
chains lie one behind the other from the header on, and a slot without offset is free. A chain goes
into the first free slot, if it is valid and there is room for it behind the others.
-/

namespace SecureBoot

theorem Fragment.totalSize_set {α : Type} [Fragment α] {items : List α} {index : Nat} {old : α}
    (there : items[index]? = some old) (nothing : Fragment.size old = 0) (item : α) :
    Fragment.totalSize (items.set index item) = Fragment.totalSize items + Fragment.size item := by
  rw [← Fragment.totalSize_set_add there item, nothing, Nat.add_zero]

namespace ChainTable

variable {table changed : ChainTable} {chain : SignatureChain} {chains : List SignatureChain}
  {index position slot next : Nat}

/-- The header and the chains register nothing that a new table does not. -/
structure Plain (table : ChainTable) : Prop where
  header : table.header.Follows (expecting table.format table.limit).header
  chains : ∀ chain ∈ table.chains, chain.Plain

theorem Standard.plain (standard : table.Standard) : table.Plain where
  header := standard.header
  chains chain member := (standard.chains chain member).plain

theorem Plain.steady (plain : table.Plain)
    (each : ∀ chain ∈ table.chains, chain.validate = .ok ()) : table.Steady where
  header := plain.header
  chains chain member := (plain.chains chain member).update_of_valid (each chain member)

/-- Where the chain at an index begins. -/
def begins (table : ChainTable) (index : Nat) : Nat :=
  Size.chainTableHeader + Fragment.totalSize (table.chains.take index)

/-- What the slot of one of the chains says that begin at `next`. -/
theorem slot_of_checkSlots (checked : table.checkSlots index (layoutFrom next chains) = .ok ())
    (there : chains[position]? = some chain) :
    table.chainOffset (index + position) = .ok (if chain.isEmpty then 0
        else UInt32.ofNat (next + Fragment.totalSize (chains.take position))) ∧
      ∃ stored, table.chainEntryCount (index + position) = .ok stored ∧
        (stored = none ∨ stored = some (UInt32.ofNat chain.length)) := by
  induction chains generalizing index next position with
  | nil => simp at there
  | cons first later ih =>
    rw [layoutFrom_cons] at checked
    obtain ⟨found, counted, checkedLater⟩ := checkSlots_cons_iff.mp checked
    cases position with
    | zero =>
      obtain rfl : first = chain := by simpa using there
      exact ⟨found, counted⟩
    | succ position =>
      have behind := ih checkedLater (by simpa using there)
      rw [List.take_succ_cons, Fragment.totalSize, Nat.add_comm position 1, ← Nat.add_assoc,
        ← Nat.add_assoc]
      exact behind

/-- The chains and the padding behind them fill the table. -/
theorem filled_of_valid (valid : table.validate = .ok ()) :
    Size.chainTableHeader + (Fragment.totalSize table.chains + table.padding.size) =
      table.limit := by
  obtain ⟨header, -, -, -, whole⟩ := validate_eq_ok_iff.mp valid
  rwa [size_eq, header] at whole

theorem split_chains (there : table.chain? index = some chain) :
    table.chains = table.chains.take index ++ chain :: table.chains.drop (index + 1) := by
  obtain ⟨inside, rfl⟩ := List.getElem?_eq_some_iff.mp there
  rw [← List.drop_eq_getElem_cons inside, List.take_append_drop]

/-- No chain reaches over the end of its table. -/
theorem begins_add_size_le (valid : table.validate = .ok ()) (there : table.chain? index = some chain) :
    table.begins index + chain.size ≤ table.limit := by
  have filled := filled_of_valid valid
  rw [split_chains there, Fragment.totalSize_append, Fragment.totalSize] at filled
  have same : Fragment.size chain = chain.size := rfl
  rw [begins]
  omega

/-- The bytes of a chain stand where it begins. -/
theorem slice_begins (header : table.header.size = Size.chainTableHeader)
    (there : table.chain? index = some chain) :
    Bytes.slice (Fragment.toBytes table) (table.begins index) chain.size = Fragment.toBytes chain := by
  have own : (Fragment.toBytes chain).length = chain.size := Fragment.Lawful.length_toBytes chain
  let front := table.header.bytes ++ (table.chains.take index).flatMap Fragment.toBytes
  have before : front.length = table.begins index := by
    rw [List.length_append, Fragment.length_flatMap_toBytes, begins, ← header]
    rfl
  have split : Fragment.toBytes table = front ++ (Fragment.toBytes chain ++
      ((table.chains.drop (index + 1)).flatMap Fragment.toBytes ++ table.padding.bytes)) := by
    have chains := congrArg (List.flatMap Fragment.toBytes) (split_chains there)
    rw [List.flatMap_append, List.flatMap_cons] at chains
    rw [toBytes_eq, chains]
    simp only [front, List.append_assoc]
  rw [split, ← before, Bytes.slice_append_right (Nat.le_refl _), Nat.sub_self,
    Bytes.slice_append_left (by omega), Bytes.slice_zero, List.take_of_length_le (Nat.le_of_eq own)]

/-- What the slot at an index says about the chain there. -/
structure Locates (table : ChainTable) (index : Nat) (chain : SignatureChain) (offset : UInt32) :
    Prop where
  stored : table.chainOffset index = .ok offset
  free : offset = 0 ↔ chain.isEmpty = true
  begins : chain.isEmpty = false → offset.toNat = table.begins index
  bytes : chain.isEmpty = false →
    Composite.readBytes table offset.toNat chain.size = .ok (Fragment.toBytes chain)
  counted : table.format = .classic →
    ∃ count, table.chainEntryCount index = .ok (some count) ∧ count.toNat = chain.length

/-- The slots of a valid table locate its chains. -/
theorem locates_of_valid (valid : table.validate = .ok ()) (small : table.limit < 2 ^ 32)
    (there : table.chain? index = some chain) : ∃ offset, table.Locates index chain offset := by
  obtain ⟨header, -, ⟨-, each, -⟩, checked, whole⟩ := validate_eq_ok_iff.mp valid
  have inside := begins_add_size_le valid there
  have short : chain.length ≤ chain.size :=
    SignatureChain.length_le_size (each chain (List.mem_of_getElem? there))
  have exact : (UInt32.ofNat (table.begins index)).toNat = table.begins index :=
    UInt32.toNat_ofNat_of_lt' (Nat.lt_of_le_of_lt (Nat.le_of_add_right_le inside) small)
  obtain ⟨found, stored, counts, same⟩ := slot_of_checkSlots checked there
  rw [Nat.zero_add] at found counts
  have counted (classic : table.format = .classic) :
      ∃ count, table.chainEntryCount index = .ok (some count) ∧ count.toNat = chain.length := by
    obtain rfl := entryCount_of_classic classic counts same
    exact ⟨_, counts, UInt32.toNat_ofNat_of_lt' (by
      show chain.length < 2 ^ 32
      omega)⟩
  by_cases empty : chain.isEmpty = true
  · rw [if_pos empty] at found
    exact ⟨0, found, by simp [empty], by simp [empty], by simp [empty], counted⟩
  · rw [if_neg empty] at found
    have positive : 0 < table.begins index := Nat.lt_of_lt_of_le (by decide) (Nat.le_add_right _ _)
    have copyable : Copyable (table.begins index) chain.size :=
      .of_lt (Nat.lt_trans (Nat.lt_of_le_of_lt inside small) (by decide))
    refine ⟨UInt32.ofNat (table.begins index), found, ?_, fun _ => exact, fun _ => ?_, counted⟩
    · refine ⟨fun zero => ?_, fun blank => absurd blank empty⟩
      rw [zero] at exact
      exact absurd exact.symm (Nat.ne_of_gt positive)
    · rw [exact, Composite.readBytes_inside (whole ▸ inside) copyable]
      exact congrArg Except.ok (slice_begins header there)

/-- The chain in a free slot is exchanged for one that takes all its size in addition. -/
theorem totalSize_put (free : table.chains.findIdx? SignatureChain.isEmpty = some slot)
    (chain : SignatureChain) :
    Fragment.totalSize (table.chains.set slot chain) =
      Fragment.totalSize table.chains + chain.size := by
  obtain ⟨inside, empty, -⟩ := List.findIdx?_eq_some_iff_getElem.mp free
  exact Fragment.totalSize_set (List.getElem?_eq_getElem inside) (size_of_isEmpty empty).2 chain

/-- A valid chain that fits behind the others goes into the first free slot of a valid table, which
stays valid. -/
theorem Plain.add_exists (plain : table.Plain) (valid : table.validate = .ok ())
    (plainChain : chain.Plain) (validChain : chain.validate = .ok ())
    (free : table.chains.findIdx? SignatureChain.isEmpty = some slot)
    (fits : Size.chainTableHeader + Fragment.totalSize table.chains + chain.size ≤ table.limit) :
    ∃ changed, table.add chain = .ok (slot, changed) ∧
      changed.chains = table.chains.set slot chain ∧ changed.format = table.format ∧
      changed.limit = table.limit ∧ changed.Plain ∧ changed.validate = .ok () := by
  obtain ⟨header, slots, ⟨-, each, -⟩, -, -⟩ := validate_eq_ok_iff.mp valid
  let put : ChainTable := { table with chains := table.chains.set slot chain }
  have fine : ∀ other ∈ put.chains, other.Plain ∧ other.validate = .ok () := by
    intro other member
    rcases List.mem_or_eq_of_mem_set member with old | rfl
    · exact ⟨plain.chains other old, each other old⟩
    · exact ⟨plainChain, validChain⟩
  have plainPut : put.Plain := ⟨plain.header, fun other member => (fine other member).1⟩
  have validEach : ∀ other ∈ put.chains, other.validate = .ok () :=
    fun other member => (fine other member).2
  have room : Size.chainTableHeader + Fragment.totalSize put.chains ≤ put.limit := by
    rw [totalSize_put free, ← Nat.add_assoc]
    exact fits
  obtain ⟨changed, updated, chains, format, limit, steady, validToo⟩ :=
    (plainPut.steady validEach).update_exists validEach header (List.length_set.trans slots) room
  refine ⟨changed, add_eq_ok_iff.mpr ⟨validChain, free, updated⟩, chains, format, limit,
    ⟨steady.header, ?_⟩, validToo⟩
  rw [chains]
  exact plainPut.chains

/-- Only a chain that fits behind the others is added to a valid table. -/
theorem Plain.fits_of_add (plain : table.Plain) (valid : table.validate = .ok ())
    (added : table.add chain = .ok (slot, changed)) :
    Size.chainTableHeader + Fragment.totalSize table.chains + chain.size ≤ table.limit := by
  obtain ⟨validChain, free, updated⟩ := add_eq_ok_iff.mp added
  obtain ⟨size, -, ⟨-, each, -⟩, -, -⟩ := validate_eq_ok_iff.mp valid
  obtain ⟨chains, header, refreshed, stores, fits, -⟩ := update_eq_ok_iff.mp updated
  have validEach : ∀ other ∈ table.chains.set slot chain, other.validate = .ok () :=
    fun other member => (List.mem_or_eq_of_mem_set member).elim (each other) (· ▸ validChain)
  obtain rfl := refreshed_eq validEach refreshed
  rwa [(storeSlots_follows plain.header stores).2, size, totalSize_put free, ← Nat.add_assoc] at fits

/-- A chain goes into the first slot that is free. -/
theorem first_free (ran : Edit.exchange (·.add chain) table = .ok slot changed) :
    table.chains.findIdx? SignatureChain.isEmpty = some slot :=
  (add_eq_ok_iff.mp (Edit.exchange_eq_ok_iff.mp ran)).2.1

theorem exists_isEmpty_iff :
    (∃ slot, table.chains.findIdx? SignatureChain.isEmpty = some slot) ↔
      ∃ other ∈ table.chains, other.isEmpty = true := by
  rw [← Option.isSome_iff_exists, List.findIdx?_isSome, List.any_eq_true]

/-- A valid table of a size that a word can hold has just this size, its slots locate its chains, and
a chain is added exactly if it is valid, a slot is free and there is room behind the others. It goes
into the first free slot of a table that stays valid otherwise as it was, and a chain that is refused
changes nothing. -/
theorem slots_hold_chains (table : ChainTable) (plain : table.Plain) (small : table.limit < 2 ^ 32)
    (valid : table.validate = .ok ()) :
    Composite.size table = table.limit ∧
    (∀ index chain, table.chain? index = some chain →
      ∃ offset, table.Locates index chain offset) ∧
    ∀ chain : SignatureChain, chain.Plain →
      ((∃ slot changed, Edit.exchange (·.add chain) table = .ok slot changed) ↔
        chain.validate = .ok () ∧ (∃ other ∈ table.chains, other.isEmpty = true) ∧
          Size.chainTableHeader + Fragment.totalSize table.chains + chain.size ≤ table.limit) ∧
      (∀ slot changed, Edit.exchange (·.add chain) table = .ok slot changed →
        (∃ old, table.chain? slot = some old ∧ old.isEmpty = true) ∧
          (∀ lower old, lower < slot → table.chain? lower = some old → old.isEmpty = false) ∧
          changed.chain? slot = some chain ∧ changed.chains = table.chains.set slot chain ∧
          changed.format = table.format ∧ changed.limit = table.limit ∧ changed.Plain ∧
          changed.validate = .ok ()) ∧
      ∀ failure left, Edit.exchange (·.add chain) table = .error failure left → left = table := by
  refine ⟨(validate_eq_ok_iff.mp valid).2.2.2.2, fun index chain => locates_of_valid valid small,
    fun chain plainChain => ⟨?_, fun slot changed ran => ?_, fun failure left ran => ?_⟩⟩
  · constructor
    · rintro ⟨slot, changed, ran⟩
      have added := Edit.exchange_eq_ok_iff.mp ran
      obtain ⟨validChain, free, -⟩ := add_eq_ok_iff.mp added
      exact ⟨validChain, exists_isEmpty_iff.mp ⟨slot, free⟩, plain.fits_of_add valid added⟩
    · rintro ⟨validChain, empty, fits⟩
      obtain ⟨slot, free⟩ := exists_isEmpty_iff.mpr empty
      obtain ⟨changed, added, -⟩ := plain.add_exists valid plainChain validChain free fits
      exact ⟨slot, changed, Edit.exchange_eq_ok_iff.mpr added⟩
  · have added := Edit.exchange_eq_ok_iff.mp ran
    obtain ⟨validChain, free, -⟩ := add_eq_ok_iff.mp added
    obtain ⟨_, again, chains, format, limit, plainToo, validToo⟩ :=
      plain.add_exists valid plainChain validChain free (plain.fits_of_add valid added)
    obtain ⟨-, rfl⟩ := Prod.mk.inj (Except.ok.inj (added.symm.trans again))
    obtain ⟨inside, empty, before⟩ := List.findIdx?_eq_some_iff_getElem.mp free
    refine ⟨⟨_, List.getElem?_eq_getElem inside, empty⟩, fun lower old below there => ?_, ?_,
      chains, format, limit, plainToo, validToo⟩
    · obtain ⟨-, rfl⟩ := List.getElem?_eq_some_iff.mp there
      exact Bool.eq_false_iff.mpr (before lower below)
    · rw [chain?, chains]
      exact List.getElem?_set_self inside
  · exact (Edit.exchange_eq_error_iff.mp ran).2.symm

/-- A new table takes a chain in its first slot and the next one behind it in the second. -/
theorem slots_hold_chains_twoChains :
    ∃ created table filled closed started, create .classic 4028 = .ok created ∧
      SignatureChain.closedChain = .ok closed ∧ SignatureChain.openChain = .ok started ∧
      Edit.exchange (·.add closed) created = .ok 0 table ∧
      Edit.exchange (·.add started) table = .ok 1 filled ∧ filled.validate = .ok () ∧
      filled.Locates 0 closed 32 ∧ filled.Locates 1 started 288 := by
  obtain ⟨closed, builtClosed, -, -, sizeClosed⟩ := SignatureChain.closedChain_exists
  obtain ⟨started, builtStarted, -, -, sizeStarted⟩ := SignatureChain.openChain_exists
  obtain ⟨standardClosed, validClosed⟩ := SignatureChain.standard_closedChain builtClosed
  obtain ⟨standardStarted, validStarted⟩ := SignatureChain.standard_openChain builtStarted
  obtain ⟨created, creates, standard, -, valid, format, limit, chains⟩ :=
    create_exists .classic (show Size.chainTableHeader ≤ 4028 by decide)
  have populated {chain : SignatureChain} (size : 0 < chain.size) : chain.isEmpty = false :=
    Bool.eq_false_iff.mpr fun empty => absurd (size_of_isEmpty empty).2 (Nat.ne_of_gt size)
  -- The first chain goes into slot 0, because nothing stands there.
  obtain ⟨-, -, adds⟩ := slots_hold_chains created standard.plain (by rw [limit]; decide) valid
  obtain ⟨accepts, puts, -⟩ := adds closed standardClosed.plain
  have space : Size.chainTableHeader + Fragment.totalSize created.chains + closed.size ≤
      created.limit := by
    rw [chains, totalSize_replicate_empty, sizeClosed, limit]
    decide
  obtain ⟨slot, table, ran⟩ :=
    accepts.mpr ⟨validClosed, ⟨.empty, chains ▸ List.mem_cons_self, rfl⟩, space⟩
  obtain ⟨-, -, -, put, -, limitToo, plainToo, validToo⟩ := puts slot table ran
  obtain rfl : 0 = slot := by
    have free := first_free ran
    rw [chains] at free
    exact Option.some.inj free
  have chainsToo : table.chains = [closed, .empty, .empty, .empty] := by
    rw [put, chains]
    rfl
  -- The second one finds slot 0 populated and goes into slot 1.
  obtain ⟨-, -, adds⟩ :=
    slots_hold_chains table plainToo (by rw [limitToo, limit]; decide) validToo
  obtain ⟨accepts, puts, -⟩ := adds started standardStarted.plain
  have space : Size.chainTableHeader + Fragment.totalSize table.chains + started.size ≤
      table.limit := by
    have filled : Fragment.totalSize table.chains = 256 := by
      rw [chainsToo]
      exact sizeClosed
    rw [filled, sizeStarted, limitToo, limit]
    decide
  obtain ⟨slot, filled, ranToo⟩ :=
    accepts.mpr ⟨validStarted, ⟨.empty, by simp [chainsToo], rfl⟩, space⟩
  obtain ⟨-, -, -, put, -, limitFilled, plainFilled, validFilled⟩ := puts slot filled ranToo
  obtain rfl : 1 = slot := by
    have free := first_free ranToo
    rw [chainsToo, List.findIdx?_cons, populated (by omega)] at free
    exact Option.some.inj free
  have chainsFilled : filled.chains = [closed, started, .empty, .empty] := by
    rw [put, chainsToo]
    rfl
  obtain ⟨-, locates, -⟩ := slots_hold_chains filled plainFilled
    (by rw [limitFilled, limitToo, limit]; decide) validFilled
  obtain ⟨_, here⟩ := locates 0 closed (by rw [chain?, chainsFilled]; rfl)
  obtain ⟨_, behind⟩ := locates 1 started (by rw [chain?, chainsFilled]; rfl)
  obtain rfl := UInt32.toNat_inj.mp ((here.begins (populated (by omega))).trans
    (show filled.begins 0 = (32 : UInt32).toNat from rfl))
  have second : filled.begins 1 = (288 : UInt32).toNat := by
    rw [begins, chainsFilled]
    exact congrArg (Size.chainTableHeader + ·) sizeClosed
  obtain rfl := UInt32.toNat_inj.mp ((behind.begins (populated (by omega))).trans second)
  exact ⟨created, table, filled, closed, started, creates, builtClosed, builtStarted, ran, ranToo,
    validFilled, here, behind⟩

end ChainTable
end SecureBoot
