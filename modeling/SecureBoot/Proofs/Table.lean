import SecureBoot.Chain.Table
import SecureBoot.Proofs.Chain

/-!
Chain tables in a stream. Chains without an entry count are kept apart by the offsets in the header:
the next populated slot bounds a chain, and the last one ends where the padding begins, because zeros
begin no entry and the alignment of the entries leaves at least one word of them.
-/

namespace SecureBoot

theorem ChainEntry.noEntry_zeros {count : Nat} (word : 4 ≤ count) (rest : Bytes) :
    NoEntry (Bytes.zeros count ++ rest) := by
  right
  obtain ⟨more, rfl⟩ : ∃ more, count = 4 + more := ⟨count - 4, by omega⟩
  rw [Bytes.zeros, ← List.replicate_append_replicate, List.append_assoc,
    Bytes.wordAt_append_left (by simp)]
  decide

namespace ChainTable

variable {table changed : ChainTable} {chain : SignatureChain} {chains others done : List SignatureChain}
  {slots : List (UInt32 × UInt32)} {count offset : UInt32} {index next : Nat} {rest : Bytes}
  {answer : Unit}

instance : Composite.Lawful ChainTable where
  parts table := by
    rw [show Composite.parts table = Part.of table.header (fun header =>
      { table with header := header }) ::
        (Part.ofList (fun chains => { table with chains := chains }) table.chains ++
          [Part.of table.padding fun padding => { table with padding := padding }]) from rfl,
      List.forall_mem_cons, List.forall_mem_append, List.forall_mem_singleton]
    exact ⟨Part.lawful_of table.header fun header => { table with header := header },
      Part.lawful_ofList table.chains fun chains => { table with chains := chains },
      Part.lawful_of table.padding fun padding => { table with padding := padding }⟩

instance : Fragment.Lawful ChainTable where
  length_toBytes := Composite.length_toBytes
  readBytes_sound := Composite.readBytes_sound
  readBytes_inside := Composite.readBytes_inside
  writeBytes_same := Composite.writeBytes_same

theorem toBytes_eq (table : ChainTable) :
    Fragment.toBytes table = table.header.bytes ++
      (table.chains.flatMap Fragment.toBytes ++ table.padding.bytes) := by
  rw [show Fragment.toBytes table = Part.serialize (Composite.parts table) from rfl]
  simp [Composite.parts, Part.serialize, Part.of, Fragment.toBytes]

theorem size_eq (table : ChainTable) :
    Composite.size table =
      table.header.size + (Fragment.totalSize table.chains + table.padding.size) := by
  simp [Composite.size, Composite.parts, Part.totalSize, Part.of, Fragment.size]

/-- The slots of the header are laid out as in a table that is read, and so are the chains. -/
structure Standard (table : ChainTable) : Prop where
  header : table.header.Follows (expecting table.format table.limit).header
  chains : ∀ chain ∈ table.chains, chain.Standard

/-- The table is filled up with zeros. -/
def Padded (table : ChainTable) : Prop :=
  table.padding =
    { Buffer.empty (some table.padding.size) with bytes := Bytes.zeros table.padding.size }

theorem checkSlots_cons_iff :
    table.checkSlots index ((count, offset) :: slots) = .ok answer ↔
      table.chainOffset index = .ok offset ∧
        (∃ stored, table.chainEntryCount index = .ok stored ∧
          (stored = none ∨ stored = some count)) ∧
        table.checkSlots (index + 1) slots = .ok () := by
  simp only [checkSlots, bind_eq_ok_iff, require_eq_ok_iff, exists_unit_iff]
  constructor
  · rintro ⟨_, found, stored, counted, ⟨rfl, same⟩, later⟩
    exact ⟨found, ⟨stored, counted, same⟩, later⟩
  · rintro ⟨found, ⟨stored, counted, same⟩, later⟩
    exact ⟨offset, found, stored, counted, ⟨rfl, same⟩, later⟩

/-- Every slot of the classic layout has a count. -/
theorem entryCount_of_classic {stored : Option UInt32} (classic : table.format = .classic)
    (counted : table.chainEntryCount index = .ok stored) (same : stored = none ∨ stored = some count) :
    stored = some count := by
  refine same.resolve_left ?_
  rintro rfl
  simp [chainEntryCount, classic] at counted

theorem size_of_isEmpty (empty : chain.isEmpty = true) : chain.length = 0 ∧ chain.size = 0 := by
  have noEntries : chain.entries.items = [] := by
    simpa [SignatureChain.isEmpty, Sequence.isEmpty] using empty
  simp [SignatureChain.length, Sequence.length, SignatureChain.size, Sequence.totalSize, noEntries,
    Fragment.totalSize]

/-- An empty chain takes no space, so the next chain begins behind every chain. -/
theorem layoutFrom_cons :
    layoutFrom next (chain :: others) =
      (UInt32.ofNat chain.length, if chain.isEmpty then 0 else UInt32.ofNat next) ::
        layoutFrom (next + chain.size) others := by
  rw [layoutFrom]
  split
  next empty =>
    rw [(size_of_isEmpty empty).1, (size_of_isEmpty empty).2, Nat.add_zero]
    rfl
  next => rfl

/-- The span of a chain ends where the next populated slot begins, if one is. -/
theorem spanTo_eq (stored : table.checkSlots index (layoutFrom next chains) = .ok ())
    (positive : 0 < next) (within : next + Fragment.totalSize chains < 2 ^ 32)
    (before : offset.toNat ≤ next) (start : Nat) :
    (∀ chain ∈ chains, chain.isEmpty = true) ∧
        table.spanTo start offset (List.range' index chains.length) = .ok none ∨
      table.spanTo start offset (List.range' index chains.length) =
        .ok (some (next - offset.toNat)) := by
  induction chains generalizing index next with
  | nil => exact .inl ⟨by simp, rfl⟩
  | cons first later ih =>
    rw [layoutFrom_cons] at stored
    rw [List.length_cons, List.range'_succ, spanTo]
    by_cases empty : first.isEmpty = true
    · rw [if_pos empty, (size_of_isEmpty empty).2, Nat.add_zero] at stored
      obtain ⟨found, -, storedLater⟩ := checkSlots_cons_iff.mp stored
      rw [bind_of_ok found, if_pos rfl]
      have fits : next + Fragment.totalSize later < 2 ^ 32 := by
        rw [Fragment.totalSize] at within
        omega
      rcases ih storedLater positive fits before with ⟨all, noSpan⟩ | span
      · exact .inl ⟨List.forall_mem_cons.mpr ⟨empty, all⟩, noSpan⟩
      · exact .inr span
    · rw [if_neg empty] at stored
      obtain ⟨found, -, -⟩ := checkSlots_cons_iff.mp stored
      have exact : (UInt32.ofNat next).toNat = next := UInt32.toNat_ofNat_of_lt' (by
        show next < 2 ^ 32
        omega)
      have there : UInt32.ofNat next ≠ 0 := by
        intro zero
        rw [zero] at exact
        exact absurd exact.symm (Nat.ne_of_gt positive)
      have ordered : offset ≤ UInt32.ofNat next := by
        rw [UInt32.le_iff_toNat_le, exact]
        exact before
      right
      rw [bind_of_ok found, if_neg there, bind_of_ok (require_of ordered), exact]
      rfl

/-- A slot of the classic layout, and that of an empty chain, says how many entries come. -/
theorem counted_of_checkSlots
    (stored : table.checkSlots index (layoutFrom next (chain :: others)) = .ok ())
    (few : chain.length < 2 ^ 32) (counts : table.format = .classic ∨ chain.isEmpty = true) :
    table.pendingEntries index = .ok (some chain.length) ∧
      table.multiRootSpan index = .ok none := by
  have exact : (UInt32.ofNat chain.length).toNat = chain.length := UInt32.toNat_ofNat_of_lt' few
  rw [layoutFrom_cons] at stored
  obtain ⟨found, ⟨count, counted, same⟩, -⟩ := checkSlots_cons_iff.mp stored
  cases layout : table.format with
  | classic =>
    obtain rfl := entryCount_of_classic layout counted same
    refine ⟨?_, by rw [multiRootSpan, layout]⟩
    rw [pendingEntries, bind_of_ok counted]
    show Except.ok (some (UInt32.ofNat chain.length).toNat) = _
    rw [exact]
  | multiRoot =>
    have empty := counts.resolve_left (by simp [layout])
    rw [if_pos empty] at found
    have uncounted : table.chainEntryCount index = .ok none := by rw [chainEntryCount, layout]
    rw [pendingEntries, bind_of_ok uncounted, multiRootSpan, layout, (size_of_isEmpty empty).1]
    simp only
    rw [bind_of_ok found, bind_of_ok found]
    exact ⟨rfl, rfl⟩

/-- A populated slot of the multi-root layout says where its chain ends, unless it is the last. -/
theorem span_of_checkSlots
    (stored : table.checkSlots index (layoutFrom next (chain :: others)) = .ok ())
    (positive : 0 < next) (within : next + Fragment.totalSize (chain :: others) < 2 ^ 32)
    (slots : index + (others.length + 1) = table.format.chainCount)
    (layout : table.format = .multiRoot) (populated : chain.isEmpty = false) :
    table.pendingEntries index = .ok none ∧
      ((∀ chain ∈ others, chain.isEmpty = true) ∧ table.multiRootSpan index = .ok none ∨
        table.multiRootSpan index = .ok (some chain.size)) := by
  rw [layoutFrom_cons, populated] at stored
  obtain ⟨found, -, storedLater⟩ := checkSlots_cons_iff.mp stored
  rw [Fragment.totalSize] at within
  have exact : (UInt32.ofNat next).toNat = next := UInt32.toNat_ofNat_of_lt' (by
    show next < 2 ^ 32
    omega)
  have there : UInt32.ofNat next ≠ 0 := by
    intro zero
    rw [zero] at exact
    exact absurd exact.symm (Nat.ne_of_gt positive)
  simp only [Bool.false_eq_true, if_false] at found
  have uncounted : table.chainEntryCount index = .ok none := by rw [chainEntryCount, layout]
  have later : table.format.chainCount - (index + 1) = others.length := by omega
  have before : (UInt32.ofNat next).toNat ≤ next + chain.size := by omega
  constructor
  · rw [pendingEntries, bind_of_ok uncounted]
    simp only
    rw [bind_of_ok found, if_neg there]
    rfl
  · have spans := spanTo_eq storedLater (by omega) (by
      rw [Nat.add_assoc]
      exact within) before index
    rw [exact, Nat.add_sub_cancel_left] at spans
    rw [multiRootSpan, later, layout]
    simp only
    rw [bind_of_ok found, if_neg there]
    exact spans

theorem serves_readBounded (standard : chain.Standard) (valid : chain.validate = .ok ()) :
    Edit.Serves (readBounded (.expecting none) chain.size) (Fragment.toBytes chain) rest
      (chain.size, chain) := by
  have exact : (Fragment.toBytes chain).length = chain.size := Fragment.Lawful.length_toBytes chain
  have alone : ChainEntry.NoEntry [] := .inl (by decide)
  have reads : Edit.Takes Fragment.read (SignatureChain.expecting none) (Fragment.toBytes chain) []
      chain.size chain := SignatureChain.takes_read standard valid (.inr ⟨rfl, .inr alone⟩)
  obtain ⟨left, ran, -⟩ := reads (Stream.ofBytes (Fragment.toBytes chain)) (Stream.steady_ofBytes _)
    (by simp)
  have answers : (Edit.readNew (SignatureChain.expecting none)).answer
      (Stream.ofBytes (Fragment.toBytes chain)) = .ok (chain.size, chain) :=
    Edit.answer_eq_ok_iff.mpr ⟨left, Edit.readNew_eq_ok_iff.mpr ran⟩
  exact .last (.takeExactly exact .chain) (.look (.ask fun _ => answers)
    (.look (.ask fun _ => require_of rfl) (.pure _ _)))

/-- A slot gives its chain back, whatever stands in the slots behind it. -/
theorem serves_readSlot
    (stored : table.checkSlots index (layoutFrom next (chain :: others)) = .ok ())
    (positive : 0 < next) (within : next + Fragment.totalSize (chain :: others) < 2 ^ 32)
    (slots : index + (others.length + 1) = table.format.chainCount)
    (standard : chain.Standard) (valid : chain.validate = .ok ())
    (absent : ChainEntry.NoEntry rest) :
    Edit.Serves (table.readSlot index) (Fragment.toBytes chain)
      (others.flatMap Fragment.toBytes ++ rest) (chain.size, chain) := by
  by_cases counts : table.format = .classic ∨ chain.isEmpty = true
  · have few : chain.length < 2 ^ 32 := by
      have short := SignatureChain.length_le_size valid
      have same : Fragment.size chain = chain.size := rfl
      rw [Fragment.totalSize] at within
      omega
    obtain ⟨pending, span⟩ := counted_of_checkSlots stored few counts
    refine .look (.ask fun _ => pending) (.look (.ask fun _ => span) ?_)
    exact .readNew (SignatureChain.takes_read standard valid (.inl rfl))
  · obtain ⟨multi, populated⟩ := not_or.mp counts
    have layout : table.format = .multiRoot := by
      cases format : table.format with
      | classic => exact absurd format multi
      | multiRoot => rfl
    obtain ⟨pending, ⟨rest_empty, span⟩ | span⟩ := span_of_checkSlots stored positive within slots
      layout (Bool.eq_false_iff.mpr populated)
    · have nothing : others.flatMap Fragment.toBytes = [] := by
        refine List.flatMap_eq_nil_iff.mpr fun other member => ?_
        rw [← List.length_eq_zero_iff, Fragment.Lawful.length_toBytes]
        exact (size_of_isEmpty (rest_empty other member)).2
      rw [nothing, List.nil_append]
      refine .look (.ask fun _ => pending) (.look (.ask fun _ => span) ?_)
      exact .readNew (SignatureChain.takes_read standard valid (.inr ⟨rfl, .inr absent⟩))
    · refine .look (.ask fun _ => pending) (.look (.ask fun _ => span) ?_)
      exact serves_readBounded standard valid

theorem spanTo_withChains (table : ChainTable) (chains : List SignatureChain) (start : Nat)
    (offset : UInt32) (slots : List Nat) :
    { table with chains := chains }.spanTo start offset slots = table.spanTo start offset slots := by
  induction slots with
  | nil => rfl
  | cons first later ih =>
    rw [spanTo, spanTo, ih]
    rfl

/-- What a slot says does not depend on the chains that have been read. -/
theorem readSlot_withChains (table : ChainTable) (chains : List SignatureChain) (index : Nat) :
    { table with chains := chains }.readSlot index = table.readSlot index := by
  have spans : { table with chains := chains }.multiRootSpan index = table.multiRootSpan index := by
    simp only [multiRootSpan, spanTo_withChains]
    rfl
  rw [readSlot, readSlot, spans]
  rfl

/-- The slots give their chains back one after the other. -/
theorem takes_readSlots
    (stored : table.checkSlots index (layoutFrom next chains) = .ok ()) (positive : 0 < next)
    (within : next + Fragment.totalSize chains < 2 ^ 32)
    (slots : index + chains.length = table.format.chainCount)
    (fine : ∀ chain ∈ chains, chain.Standard ∧ chain.validate = .ok ())
    (absent : ChainEntry.NoEntry rest) :
    Edit.Takes (readSlots (List.range' index chains.length)) { table with chains := done }
      (chains.flatMap Fragment.toBytes) rest (Fragment.totalSize chains)
      { table with chains := done ++ chains } := by
  induction chains generalizing index next done with
  | nil =>
    rw [List.append_nil]
    exact .pure 0 _ rest
  | cons first others ih =>
    obtain ⟨⟨standard, valid⟩, fineLater⟩ := List.forall_mem_cons.mp fine
    have serves := serves_readSlot stored positive within slots standard valid absent
    rw [← readSlot_withChains table done] at serves
    rw [layoutFrom_cons] at stored
    obtain ⟨-, -, storedLater⟩ := checkSlots_cons_iff.mp stored
    simp only [Fragment.totalSize, List.length_cons] at within slots
    have later : Edit.Takes (readSlots (List.range' (index + 1) others.length))
        { table with chains := done ++ [first] } (others.flatMap Fragment.toBytes) rest
        (Fragment.totalSize others) { table with chains := done ++ [first] ++ others } :=
      ih storedLater (by omega) (by rw [Nat.add_assoc]; exact within) (by omega) fineLater
    rw [List.append_assoc, List.singleton_append] at later
    rw [List.length_cons, List.range'_succ, List.flatMap_cons, Fragment.totalSize]
    refine .get_bind fun stream _ => ?_
    refine .bind (.fromStream serves _) (.look (.modify _ _ _) (.last later ?_))
    exact .pure _ _ rest

theorem checkHeaderSize_eq_ok_iff :
    table.checkHeaderSize = .ok answer ↔ table.header.size = Size.chainTableHeader := by
  rw [checkHeaderSize, require_eq_ok_iff]

theorem validateParts_eq_ok_iff :
    Composite.validateParts table = .ok answer ↔
      table.header.validate = .ok () ∧ (∀ chain ∈ table.chains, chain.validate = .ok ()) ∧
        table.padding.validate = .ok () := by
  rw [Composite.validateParts_eq_ok_iff, show Composite.parts table = Part.of table.header (fun header =>
      { table with header := header }) ::
        (Part.ofList (fun chains => { table with chains := chains }) table.chains ++
          [Part.of table.padding fun padding => { table with padding := padding }]) from rfl,
    List.forall_mem_cons, List.forall_mem_append, List.forall_mem_singleton, Part.validate_ofList]
  rfl

theorem validate_eq_ok_iff :
    table.validate = .ok answer ↔
      table.header.size = Size.chainTableHeader ∧
      table.chains.length = table.format.chainCount ∧
      (table.header.validate = .ok () ∧ (∀ chain ∈ table.chains, chain.validate = .ok ()) ∧
        table.padding.validate = .ok ()) ∧
      table.checkSlots 0 table.layout = .ok () ∧ Composite.size table = table.limit := by
  simp only [validate, bind_eq_ok_iff, exists_unit_iff, checkHeaderSize_eq_ok_iff, require_eq_ok_iff,
    validateParts_eq_ok_iff]

/-- The chains are aligned, so the padding of a table whose size is four past a multiple of eight
has at least one word. -/
theorem Standard.word_le_padding (standard : table.Standard) (valid : table.validate = .ok ())
    (word : table.limit % 8 = 4) : 4 ≤ table.padding.size := by
  obtain ⟨header, -, ⟨-, each, -⟩, -, whole⟩ := validate_eq_ok_iff.mp valid
  have aligned : Fragment.totalSize table.chains % 8 = 0 := by
    have fine : ∀ chain ∈ table.chains, chain.size % 8 = 0 := fun chain member =>
      (standard.chains chain member).aligned (each chain member)
    generalize table.chains = chains at fine
    induction chains with
    | nil => rfl
    | cons first others ih =>
      obtain ⟨here, later⟩ := List.forall_mem_cons.mp fine
      have := ih later
      have same : Fragment.size first = first.size := rfl
      rw [Fragment.totalSize]
      omega
  rw [size_eq, header, Size.chainTableHeader] at whole
  omega

/-- What the slots hold does not depend on the padding or the chains. -/
theorem checkSlots_congr {other : ChainTable} (header : other.header = table.header)
    (format : other.format = table.format) :
    other.checkSlots index slots = table.checkSlots index slots := by
  induction slots generalizing index with
  | nil => rfl
  | cons first later ih =>
    obtain ⟨count, offset⟩ := first
    simp only [checkSlots, chainOffset, chainEntryCount, header, format, ih]

/-- A valid table that was filled up with zeros is read back from its own bytes, whatever follows
them. -/
theorem takes_read (standard : table.Standard) (padded : table.Padded) (valid : table.validate = .ok ())
    (word : table.limit % 8 = 4) (small : table.limit < 2 ^ 32) (rest : Bytes) :
    Edit.Takes read (expecting table.format table.limit) (Fragment.toBytes table) rest table.limit
      table := by
  obtain ⟨header, slots, ⟨validHeader, each, validPadding⟩, stored, whole⟩ :=
    validate_eq_ok_iff.mp valid
  have four := standard.word_le_padding valid word
  rw [size_eq, header] at whole
  have absent : ChainEntry.NoEntry (table.padding.bytes ++ rest) := by
    rw [padded]
    exact ChainEntry.noEntry_zeros four rest
  let headed : ChainTable := { expecting table.format table.limit with header := table.header }
  let filled : ChainTable := { headed with chains := table.chains }
  let padding : Buffer := Buffer.empty (some table.padding.size)
  have readHeader (rest : Bytes) : Edit.Takes (Edit.readPart ChainTable.header
      (fun table header => { table with header := header })) (expecting table.format table.limit)
        table.header.bytes rest table.header.size headed :=
    .readPart (standard.header.takes_read rfl (by rw [header]; rfl) validHeader rest)
  have readChains : Edit.Takes (readSlots (List.range table.format.chainCount))
      { headed with chains := [] } (table.chains.flatMap Fragment.toBytes)
      (table.padding.bytes ++ rest) (Fragment.totalSize table.chains) filled := by
    have same : headed.checkSlots 0 table.layout = table.checkSlots 0 table.layout :=
      checkSlots_congr rfl rfl
    have positive : 0 < Size.chainTableHeader := by decide
    rw [← slots, List.range_eq_range']
    refine takes_readSlots (same.trans stored) positive (by omega) ?_ ?_ absent
    · rw [slots, Nat.zero_add]
      rfl
    · exact fun chain member => ⟨standard.chains chain member, each chain member⟩
  have room : filled.room = .ok table.padding.size := by
    have used : filled.usedSize = Size.chainTableHeader + Fragment.totalSize table.chains := by
      rw [usedSize, ← header]
    have fits : filled.usedSize ≤ filled.limit := by
      rw [used]
      show _ ≤ table.limit
      omega
    rw [ChainTable.room, bind_of_ok (require_of fits), used]
    show Except.ok (table.limit - _) = _
    congr 1
    omega
  have readPadding : Edit.Takes (Edit.readPart ChainTable.padding
      (fun table padding => { table with padding := padding })) { filled with padding := padding }
        table.padding.bytes rest table.padding.size table := by
    have zeros : table.padding.bytes = Bytes.zeros table.padding.size := congrArg Buffer.bytes padded
    have follows : table.padding.Follows padding := by
      refine ⟨?_, fun most bounded => Nat.le_of_eq (Option.some.inj bounded)⟩
      rw [zeros]
      exact padded
    exact .readPart (follows.takes_read rfl rfl validPadding rest)
  have total : Edit.Takes (pure (table.header.size + Fragment.totalSize table.chains +
      table.padding.size)) table [] rest table.limit table := by
    rw [header, Nat.add_assoc, whole]
    exact .pure table.limit table rest
  rw [toBytes_eq]
  refine .look (.ask fun _ => require_of rfl) (.bind (readHeader _) ?_)
  have sized : headed.checkHeaderSize = .ok () := checkHeaderSize_eq_ok_iff.mpr header
  refine .look (.check sized _) (.look (.modify _ headed _) (.get_bind fun stream _ => ?_))
  refine .bind readChains (.look (.check room _) (.look (.modify _ filled _) ?_))
  exact .last readPadding (.look (.check valid _) total)

end ChainTable
end SecureBoot
