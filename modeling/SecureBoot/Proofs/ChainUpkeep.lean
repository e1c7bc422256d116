import SecureBoot.Proofs.Descriptor
import SecureBoot.Proofs.Upkeep

/-!
The upkeep of layouts, from chains to signature descriptors. A chain bounds nothing, a table keeps the
slots it was made with, and a descriptor has a checksum only behind a complete header; what is stored,
refreshed, read or written leaves it so, whether it succeeds or fails.
-/

namespace SecureBoot

namespace SignatureChain

variable {chain changed : SignatureChain} {entry : ChainEntry} {index : Nat}

theorem standard_iff :
    chain.Standard ↔ chain.entries.Follows (Sequence.empty none) ChainEntry.Standard :=
  ⟨fun standard => ⟨standard.unbounded, standard.entries⟩,
    fun follows => ⟨follows.layout, follows.items⟩⟩

theorem Standard.follows (standard : chain.Standard) :
    chain.entries.Follows (Sequence.empty none) ChainEntry.Standard :=
  standard_iff.mp standard

theorem Standard.countDown (standard : chain.Standard) : chain.countDown.Standard :=
  ⟨standard.unbounded, standard.entries⟩

theorem Standard.settle (standard : chain.Standard) : chain.settle.Standard :=
  ⟨standard.unbounded, standard.entries⟩

theorem Standard.extend {other : SignatureChain} (standard : chain.Standard)
    (fine : ∀ entry ∈ other.entries.items, entry.Standard)
    (ran : chain.extend other = .ok changed) : changed.Standard := by
  rw [SignatureChain.extend] at ran
  generalize other.entries.items = entries at fine ran
  induction entries generalizing chain with
  | nil =>
    obtain rfl := Except.ok.inj ran
    exact standard
  | cons first rest ih =>
    obtain ⟨here, later⟩ := List.forall_mem_cons.mp fine
    rw [List.foldlM_cons, bind_eq_ok_iff] at ran
    obtain ⟨grown, taken, ranOn⟩ := ran
    exact ih (standard.append here taken) later ranOn

theorem Standard.putEntry (standard : chain.Standard) (fine : entry.Standard)
    (put : chain.putEntry? index entry = some changed) : changed.Standard := by
  obtain ⟨entries, puts, rfl⟩ := Option.map_eq_some_iff.mp put
  rw [Sequence.put?] at puts
  split at puts
  · obtain rfl := Option.some.inj puts
    refine standard_iff.mpr (standard.follows.withItems fun other member => ?_)
    rcases List.mem_or_eq_of_mem_set member with before | rfl
    · exact standard.entries other before
    · exact fine
  · cases puts

theorem Standard.writeKeeps : Fragment.WriteKeeps Standard := by
  intro chain changed bytes offset standard ran
  simp only [Fragment.writeBytes, bind_eq_ok_iff, pure_eq_ok_iff] at ran
  obtain ⟨entries, written, rfl⟩ := ran
  exact standard_iff.mpr (standard.follows.setRaw ChainEntry.Standard.writeKeeps written)

theorem Standard.keeps_update :
    Edit.Keeps Standard (Fragment.update : Edit SignatureChain Unit) := by
  have each : Edit.Keeps (Sequence.Follows · (Sequence.empty none) ChainEntry.Standard)
      Sequence.update :=
    Sequence.Follows.keeps_update ChainEntry.Standard.writeKeeps ChainEntry.Standard.keeps_update
  exact each.within (fun _ standard => standard.follows) fun _ _ _ follows =>
    standard_iff.mpr follows

theorem Standard.keeps_readEntries (rounds : Nat) :
    Edit.Keeps (Edit.First Standard) (readEntries rounds) := by
  induction rounds with
  | zero => exact .pure 0
  | succ rounds ih =>
    unfold readEntries
    refine .bind .get fun pair => ?_
    obtain ⟨chain, stream⟩ := pair
    refine .ite (.pure 0) ?_
    refine .bind (.fromStream _) fun head => .ite (.pure 0) ?_
    refine .bind_fromStream _ ChainEntry.standard_of_sniff fun found fine => ?_
    cases found with
    | none => exact .ite (.pure 0) fun _ standard => standard
    | some blank =>
      refine .bind_readNew ChainEntry.Standard.keeps_read (fine blank rfl) fun count entry good => ?_
      refine .bind (Edit.Keeps.onObject (.change fun _ _ standard ran => ?_)) fun _ => ?_
      · exact standard.append good ran
      refine .bind (Edit.Keeps.onObject (.modify fun _ standard => standard.countDown)) fun _ => ?_
      exact .ite (.pure count) (.bind ih fun more => .pure (count + more))

theorem Standard.keeps_read :
    Edit.Keeps (Edit.First Standard) (Fragment.read : Edit (SignatureChain × Stream) Nat) := by
  refine .bind (.ask _) fun _ => .bind .get fun pair => .bind (keeps_readEntries _) fun count => ?_
  refine .bind (Edit.Keeps.onObject (.modify fun _ standard => standard.settle)) fun _ => ?_
  exact .bind (Edit.Keeps.onObject (.ask _)) fun _ => .pure count

theorem Standard.maintained : Fragment.Maintains Standard :=
  ⟨Standard.writeKeeps, Standard.keeps_read, Standard.keeps_update⟩

end SignatureChain

namespace ChainTable

variable {table changed : ChainTable} {chain : SignatureChain} {format : ChainFormat}
  {limit index slot : Nat}

theorem standard_expecting (format : ChainFormat) (limit : Nat) :
    (expecting format limit).Standard :=
  ⟨.self _ fun _ _ => Nat.zero_le _, nofun⟩

/-- The slots of all tables are laid out alike. -/
theorem Standard.withHeader {header : Buffer} (standard : table.Standard)
    (follows : header.Follows (expecting format limit).header) :
    ({ table with header := header } : ChainTable).Standard :=
  ⟨follows, standard.chains⟩

theorem Standard.setChain (standard : table.Standard) (fine : chain.Standard) (index : Nat) :
    ({ table with chains := table.chains.set index chain } : ChainTable).Standard := by
  refine ⟨standard.header, fun other member => ?_⟩
  rcases List.mem_or_eq_of_mem_set member with before | rfl
  · exact standard.chains other before
  · exact fine

theorem Standard.putChain (standard : table.Standard) (fine : chain.Standard)
    (put : table.putChain? index chain = some changed) : changed.Standard := by
  rw [putChain?] at put
  split at put
  · obtain rfl := Option.some.inj put
    exact standard.setChain fine index
  · cases put

theorem Standard.keeps_onHeader {α : Type} {call : Edit Buffer α}
    (keeps : ∀ blank, Edit.Keeps (Buffer.Follows · blank) call) :
    Edit.Keeps Standard
      (Edit.within ChainTable.header (fun table header => { table with header := header }) call) :=
  (keeps (expecting .classic 0).header).within (fun _ standard => standard.header)
    fun _ _ standard follows => standard.withHeader follows

theorem keeps_storeSlots {blank : Buffer} (address : Nat) (slots : List (UInt32 × UInt32)) :
    Edit.Keeps (Buffer.Follows · blank) (storeSlots format address slots) := by
  induction slots generalizing address with
  | nil => exact .pure ()
  | cons first rest ih =>
    cases format with
    | classic =>
      exact .bind (Buffer.Follows.keeps_setWord _ _) fun _ =>
        .bind (Buffer.Follows.keeps_setWord _ _) fun _ => ih _
    | multiRoot => exact .bind (Buffer.Follows.keeps_setWord _ _) fun _ => ih _

theorem Standard.keeps_updateHeader : Edit.Keeps Standard updateHeader :=
  .bind .get fun _ => Standard.keeps_onHeader fun _ => keeps_storeSlots 0 _

theorem Standard.keeps_pad : Edit.Keeps Standard pad := by
  refine .bind (.ask _) fun room => .bind (.modify fun _ standard => ?_) fun _ => ?_
  · exact ⟨standard.header, standard.chains⟩
  · exact .elsewhere _ fun _ _ standard => ⟨standard.header, standard.chains⟩

theorem Standard.keeps_update :
    Edit.Keeps Standard (Fragment.update : Edit ChainTable Unit) := by
  refine .bind ?_ fun _ => .bind keeps_updateHeader fun _ => keeps_pad
  exact SignatureChain.Standard.keeps_update.each.within (fun _ standard => standard.chains)
    fun _ _ standard each => ⟨standard.header, each⟩

theorem standard_create (ran : create format limit = .ok table) : table.Standard := by
  obtain ⟨_, made⟩ := Edit.result_eq_ok_iff.mp ran
  have keeps : Edit.Keeps Standard (do
      Edit.within ChainTable.header (fun table header => { table with header := header })
        (Buffer.reset Size.chainTableHeader)
      modify fun table =>
        { table with chains := List.replicate format.chainCount SignatureChain.empty }
      update) := by
    refine .bind (Standard.keeps_onHeader fun _ => Buffer.Follows.keeps_reset _) fun _ =>
      .bind (.modify fun _ standard => ⟨standard.header, fun chain member => ?_⟩) fun _ =>
        Standard.keeps_update
    rw [List.eq_of_mem_replicate member]
    exact SignatureChain.standard_expecting (some 0)
  exact keeps.of_ok (standard_expecting format limit) made

theorem Standard.add (standard : table.Standard) (fine : chain.Standard)
    (ran : table.add chain = .ok (slot, changed)) : changed.Standard := by
  obtain ⟨-, -, updated⟩ := add_eq_ok_iff.mp ran
  exact Standard.keeps_update.of_ok (standard.setChain fine slot) updated

theorem Standard.writeKeeps : Fragment.WriteKeeps Standard := by
  intro table changed bytes offset standard ran
  refine Part.writeSpan_leaves Standard standard ?_ ran
  refine List.forall_mem_append.mpr ⟨List.forall_mem_append.mpr ⟨List.forall_mem_singleton.mpr
    ?header, ?chains⟩, List.forall_mem_singleton.mpr ?padding⟩
  case header =>
    exact Part.leaves_of (Buffer.Follows.writeKeeps _) standard.header fun _ follows =>
      standard.withHeader follows
  case chains =>
    exact Part.leaves_ofList SignatureChain.Standard.writeKeeps standard.chains fun _ _ each =>
      ⟨standard.header, each⟩
  case padding =>
    exact Part.leaves_of (Buffer.writeKeeps_size _) rfl fun _ _ =>
      ⟨standard.header, standard.chains⟩

/-- A chain that has to fill its slot is read from a stream of its own. -/
theorem standard_of_readSlot (stream : Stream) (answer : Nat × SignatureChain) (left : Stream)
    (ran : table.readSlot index stream = .ok answer left) : answer.2.Standard := by
  have new {pending : Option Nat} {stream left : Stream} {count : Nat} {chain : SignatureChain}
      (ran : Edit.readNew (SignatureChain.expecting pending) stream = .ok (count, chain) left) :
      chain.Standard := by
    have begun : Edit.First SignatureChain.Standard (SignatureChain.expecting pending, stream) :=
      SignatureChain.standard_expecting pending
    exact SignatureChain.Standard.keeps_read.of_ok begun (Edit.readNew_eq_ok_iff.mp ran)
  simp only [readSlot, Edit.bind_eq_ok_iff, Edit.ask_eq_ok_iff] at ran
  obtain ⟨pending, _, ⟨-, rfl⟩, span, _, ⟨-, rfl⟩, ran⟩ := ran
  cases span with
  | none => exact new ran
  | some span =>
    simp only [readBounded, Edit.bind_eq_ok_iff, Edit.ask_eq_ok_iff, Edit.answer_eq_ok_iff,
      Edit.pure_eq_ok_iff, Prod.exists] at ran
    obtain ⟨bytes, _, -, _, _, _, ⟨⟨rest, read⟩, rfl⟩, _, _, -, rfl, -⟩ := ran
    exact new read

theorem Standard.keeps_readSlots (indices : List Nat) :
    Edit.Keeps (Edit.First Standard) (readSlots indices) := by
  induction indices with
  | nil => exact .pure 0
  | cons index rest ih =>
    refine .bind .get fun (table, _) => ?_
    refine .bind_fromStream (·.2.Standard) standard_of_readSlot fun (count, chain) fine => ?_
    refine .bind (Edit.Keeps.onObject (.modify fun table standard => ⟨standard.header, ?_⟩)) fun _ =>
      .bind ih fun more => .pure (count + more)
    exact List.forall_mem_append.mpr ⟨standard.chains, List.forall_mem_singleton.mpr fine⟩

theorem Standard.keeps_read :
    Edit.Keeps (Edit.First Standard) (Fragment.read : Edit (ChainTable × Stream) Nat) := by
  have slots : Edit.Keeps (Edit.First (Buffer.Follows · (expecting .classic 0).header))
      (Fragment.read : Edit (Buffer × Stream) Nat) := Buffer.Follows.keeps_read
  refine .bind (.ask _) fun _ => .bind (.readPart slots (fun _ standard => standard.header)
    fun _ _ standard follows => standard.withHeader follows) fun first => ?_
  refine .bind (Edit.Keeps.onObject (.ask _)) fun _ => ?_
  refine .bind (Edit.Keeps.onObject (.modify fun _ standard => ⟨standard.header, nofun⟩)) fun _ => ?_
  refine .bind .get fun _ => .bind (keeps_readSlots _) fun chains => ?_
  refine .bind (Edit.Keeps.onObject (.ask _)) fun room => ?_
  refine .bind (Edit.Keeps.onObject (.modify fun _ standard => ⟨standard.header, standard.chains⟩))
    fun _ => ?_
  refine .bind ?_ fun padding => .bind (Edit.Keeps.onObject (.ask _)) fun _ => .pure _
  exact .elsewhere _ fun _ _ standard => ⟨standard.header, standard.chains⟩

theorem Standard.maintained : Fragment.Maintains Standard :=
  ⟨Standard.writeKeeps, Standard.keeps_read, Standard.keeps_update⟩

end ChainTable

namespace SignatureDescriptor

variable {descriptor changed : SignatureDescriptor} {chain : SignatureChain} {table : ChainTable}
  {format : ChainFormat}

theorem standard_empty : empty.Standard where
  header := .self _ fun _ _ => Nat.zero_le _
  table := ChainTable.standard_expecting _ _
  crc := .self _ fun _ _ => Nat.zero_le _
  complete := .inl rfl

theorem standard_create (ran : create format = .ok descriptor) : descriptor.Standard := by
  obtain ⟨other, made, standard, -⟩ := create_exists format
  rwa [Except.ok.inj (ran.symm.trans made)]

theorem Standard.withTable (standard : descriptor.Standard) (fine : table.Standard) :
    ({ descriptor with table := table } : SignatureDescriptor).Standard :=
  { standard with table := fine }

/-- The header is laid out, and has a size, as before. -/
theorem Standard.withHeader {header : Buffer} (standard : descriptor.Standard)
    (follows : header.Follows empty.header) (same : header.size = descriptor.header.size) :
    ({ descriptor with header := header } : SignatureDescriptor).Standard :=
  { standard with header := follows, complete := standard.complete.imp_right same.trans }

theorem Standard.withCrc {crc : Buffer} (standard : descriptor.Standard)
    (follows : crc.Follows empty.crc) (same : crc.size = descriptor.crc.size) :
    ({ descriptor with crc := crc } : SignatureDescriptor).Standard :=
  { standard with crc := follows, complete := standard.complete.imp_left same.trans }

theorem Standard.keeps_onTable {α : Type} {call : Edit ChainTable α}
    (keeps : Edit.Keeps ChainTable.Standard call) : Edit.Keeps Standard (onTable call) :=
  keeps.within (fun _ standard => standard.table) fun _ _ standard fine => standard.withTable fine

theorem Standard.keeps_updateCrc : Edit.Keeps Standard SignatureDescriptor.updateCrc := by
  refine .bind (.ask _) fun crc => .within_change (fun _ => rfl) fun _ _ standard ran => ?_
  exact standard.withCrc (standard.crc.setWord ran) (Buffer.size_setRaw ran)

theorem Standard.keeps_update :
    Edit.Keeps Standard (Fragment.update : Edit SignatureDescriptor Unit) :=
  .bind (keeps_onTable ChainTable.Standard.keeps_update) fun _ => keeps_updateCrc

theorem Standard.keeps_setBlock0Hash (hash : Bytes) :
    Edit.Keeps Standard (SignatureDescriptor.setBlock0Hash hash) := by
  refine .bind (.within_change (fun _ => rfl) fun _ _ standard ran => ?_) fun _ => keeps_updateCrc
  exact standard.withHeader (standard.header.setRaw ran) (Buffer.size_setRaw ran)

theorem Standard.keeps_addChain (fine : chain.Standard) : Edit.Keeps Standard (addChain chain) := by
  refine .bind (keeps_onTable (.exchange fun _ _ _ standard ran => ?_)) fun slot =>
    .bind keeps_updateCrc fun _ => .pure slot
  exact standard.add fine ran

/-- Writing changes no size, so a checksum still comes only with a complete header. -/
theorem Standard.writeKeeps : Fragment.WriteKeeps Standard := by
  intro descriptor changed bytes offset standard ran
  have sized (blank : Buffer) (count : Nat) :=
    (Buffer.Follows.writeKeeps blank).and (Buffer.writeKeeps_size count)
  refine Part.writeSpan_leaves Standard standard ?_ ran
  refine List.forall_mem_cons.mpr ⟨?header, List.forall_mem_cons.mpr ⟨?table,
    List.forall_mem_singleton.mpr ?crc⟩⟩
  case header =>
    exact Part.leaves_of (sized empty.header descriptor.header.size) ⟨standard.header, rfl⟩
      fun _ kept => standard.withHeader kept.1 kept.2
  case table =>
    exact Part.leaves_of ChainTable.Standard.writeKeeps standard.table fun _ fine =>
      standard.withTable fine
  case crc =>
    exact Part.leaves_of (sized empty.crc descriptor.crc.size) ⟨standard.crc, rfl⟩
      fun _ kept => standard.withCrc kept.1 kept.2

/-- A header that is complete is not read on. -/
theorem Standard.keeps_readHeader : Edit.Keeps (Edit.First Standard)
    (Edit.readPart SignatureDescriptor.header fun descriptor header =>
      { descriptor with header := header }) := by
  rintro ⟨descriptor, stream⟩ standard
  have standard : descriptor.Standard := standard
  have follows := Buffer.Follows.keeps_read (descriptor.header, stream) standard.header
  have grows := Buffer.size_le_after_read descriptor.header stream
  have complete (full : descriptor.header.size = headerSize) :
      (Edit.after Fragment.read (descriptor.header, stream)).1.size = headerSize :=
    Nat.le_antisymm (follows.bounded _ rfl) (full ▸ grows)
  cases ran : (Fragment.read : Edit (Buffer × Stream) Nat) (descriptor.header, stream) <;>
    (simp only [Edit.after, ran] at follows complete
     simp only [Edit.after, Edit.readPart, Edit.within, ran]
     exact ⟨follows, standard.table, standard.crc, standard.complete.imp_right complete⟩)

/-- The layout of a descriptor whose header is complete. -/
def Headed (descriptor : SignatureDescriptor) : Prop :=
  descriptor.Standard ∧ descriptor.header.size = headerSize

/-- What is read behind a complete header, table and checksum, leaves the header alone. -/
theorem keeps_readBehind {α : Type} {call : Edit (SignatureDescriptor × Stream) α}
    (keeps : Edit.Keeps (Edit.First Headed) call) {descriptor : SignatureDescriptor}
    {stream : Stream} (standard : descriptor.Standard)
    (complete : descriptor.checkHeaderComplete = .ok ()) :
    Edit.First Standard (call.after (descriptor, stream)) := by
  have full := Buffer.isComplete_iff.mp (require_eq_ok_iff.mp complete) _ standard.header.limit
  have headed : Edit.First Headed (descriptor, stream) :=
    ⟨standard, Nat.le_antisymm (standard.header.bounded _ rfl) full⟩
  exact (keeps (descriptor, stream) headed).1

theorem Standard.keeps_read :
    Edit.Keeps (Edit.First Standard) (Fragment.read : Edit (SignatureDescriptor × Stream) Nat) := by
  have word : Edit.Keeps (Edit.First (Buffer.Follows · empty.crc))
      (Fragment.read : Edit (Buffer × Stream) Nat) := Buffer.Follows.keeps_read
  refine .bind keeps_readHeader fun header => ?_
  refine .bind_of (Edit.Keeps.onObject (.ask _)) fun before _ between _ ran kept => ?_
  obtain ⟨descriptor, stream⟩ := between
  obtain ⟨checked, -⟩ := Edit.onObject_eq_ok_iff.mp ran
  obtain ⟨complete, same⟩ := Edit.ask_eq_ok_iff.mp checked
  rw [same] at complete
  refine keeps_readBehind ?_ kept complete
  refine .bind (Edit.Keeps.onObject (.ask _)) fun format => ?_
  refine .bind (Edit.Keeps.onObject (.modify fun _ headed =>
    ⟨headed.1.withTable (ChainTable.standard_expecting format tableSize), headed.2⟩)) fun _ => ?_
  refine .bind (.readPart ChainTable.Standard.keeps_read (fun _ headed => headed.1.table)
    fun _ _ headed fine => ⟨headed.1.withTable fine, headed.2⟩) fun table => ?_
  refine .bind (.readPart word (fun _ headed => headed.1.crc) fun _ _ headed follows => ?_) fun crc =>
    .bind (Edit.Keeps.onObject (.ask _)) fun _ => .pure _
  exact ⟨{ headed.1 with crc := follows, complete := .inr headed.2 }, headed.2⟩

theorem Standard.maintained : Fragment.Maintains Standard :=
  ⟨Standard.writeKeeps, Standard.keeps_read, Standard.keeps_update⟩

end SignatureDescriptor

end SecureBoot
