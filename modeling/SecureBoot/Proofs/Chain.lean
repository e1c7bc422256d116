import SecureBoot.Chain
import SecureBoot.Proofs.Build
import SecureBoot.Proofs.Order
import SecureBoot.Proofs.Sequence

/-!
Chains in a stream. Reading stops after the entries that were counted, or after the first bytes that
can belong to no chain, so a valid chain is read back from its own bytes and a chain that was read
has just the bytes that were taken.
-/

namespace SecureBoot.SignatureChain

variable {chain changed : SignatureChain} {entries : List ChainEntry} {entry : ChainEntry}
  {pending : Option Nat} {bytes rest : Bytes} {count rounds : Nat} {stream left : Stream}
  {answer : Unit}

theorem toBytes_eq (chain : SignatureChain) :
    Fragment.toBytes chain = chain.entries.items.flatMap Fragment.toBytes :=
  Sequence.toBytes_eq chain.entries

instance : Fragment.Lawful SignatureChain where
  length_toBytes chain := Fragment.Lawful.length_toBytes chain.entries
  readBytes_sound := Fragment.Lawful.readBytes_sound (α := Sequence ChainEntry)
  readBytes_inside := Fragment.Lawful.readBytes_inside (α := Sequence ChainEntry)
  writeBytes_same := by
    intro chain changed bytes offset same written
    obtain ⟨entries, wrote, rfl⟩ := map_eq_ok_iff.mp written
    have unchanged : entries = chain.entries := Composite.writeBytes_same same wrote
    rw [unchanged]

/-- The chain bounds nothing, and its entries are laid out as the ones that are read. -/
structure Standard (chain : SignatureChain) : Prop where
  unbounded : chain.entries =
    { (Sequence.empty none : Sequence ChainEntry) with items := chain.entries.items }
  entries : ∀ entry ∈ chain.entries.items, entry.Standard

/-- The chain with entries added at its end, as many fewer of them pending. -/
def extended (chain : SignatureChain) (entries : List ChainEntry) : SignatureChain where
  entries := { chain.entries with items := chain.entries.items ++ entries }
  pending := chain.pending.map (· - entries.length)

@[simp] theorem extended_nil (chain : SignatureChain) : chain.extended [] = chain := by
  cases chain
  simp [extended]

theorem extended_cons (chain : SignatureChain) (entry : ChainEntry) (entries : List ChainEntry) :
    chain.extended (entry :: entries) = (chain.extended [entry]).extended entries := by
  simp [extended, Function.comp_def, Nat.sub_sub, Nat.add_comm]

@[simp] theorem kinds_extended (chain : SignatureChain) (entries : List ChainEntry) :
    (chain.extended entries).kinds = chain.kinds ++ entries.map ChainEntry.kind := by
  simp [extended, kinds]

theorem checkSettled_eq_ok_iff : chain.checkSettled = .ok answer ↔ chain.pending = some 0 := by
  rw [checkSettled]
  split <;> simp_all

theorem validate_eq_ok_iff :
    chain.validate = .ok answer ↔
      chain.pending = some 0 ∧ WellOrdered chain.kinds ∧ chain.entries.validate = .ok () := by
  simp only [validate, bind_eq_ok_iff, exists_unit_iff, checkSettled_eq_ok_iff, checkOrder_eq_ok_iff]

theorem isTerminated_iff : chain.isTerminated = true ↔ chain.kinds.getLast? = some .block0 := by
  rw [isTerminated, decide_eq_true_iff, state, ofKinds_eq_terminated_iff]

/-- A chain without bounds is valid when its entries are and stand in order. -/
theorem Standard.validate_eq_ok_iff (standard : chain.Standard) :
    chain.validate = .ok answer ↔
      chain.pending = some 0 ∧ WellOrdered chain.kinds ∧
        ∀ entry ∈ chain.entries.items, entry.validate = .ok () := by
  rw [SignatureChain.validate_eq_ok_iff, standard.unbounded]
  simp [Sequence.validate, Sequence.validateItems_eq_ok_iff, Sequence.checkCount, checkBound,
    Sequence.checkMagics, Sequence.checkCrcs, Sequence.empty, Fragment.validate]

theorem Standard.extended (standard : chain.Standard) (fine : ∀ entry ∈ entries, entry.Standard) :
    (chain.extended entries).Standard := by
  refine ⟨?_, fun entry member => ?_⟩
  · rw [SignatureChain.extended, standard.unbounded]
  · exact (List.mem_append.mp member).elim (standard.entries entry) (fine entry)

theorem standard_expecting (pending : Option Nat) : (expecting pending).Standard :=
  ⟨rfl, by simp [expecting, Sequence.empty]⟩

/-- One round appends an entry and counts it. -/
theorem append_countDown (standard : chain.Standard)
    (ordered : WellOrdered (chain.kinds ++ [entry.kind])) :
    ∃ grown, chain.append entry = .ok grown ∧ grown.countDown = chain.extended [entry] := by
  have accepted : (ChainState.ofKinds chain.kinds).accept entry.kind = .ok () :=
    (accept_eq_ok_iff (wellOrdered_of_append ordered)).mpr ordered
  have grown : chain.entries.append entry =
      .ok { chain.entries with items := chain.entries.items ++ [entry] } := by
    rw [Sequence.append_eq_ok_iff, standard.unbounded]
    simp [Sequence.empty]
  refine ⟨{ chain with
    entries := { chain.entries with items := chain.entries.items ++ [entry] } }, ?_, rfl⟩
  rw [append, state, bind_of_ok accepted, grown]
  rfl

/-- An entry that is accepted is added at the end. -/
theorem append_eq_ok (ran : chain.append entry = .ok changed) :
    chain.state.accept entry.kind = .ok () ∧
      { chain with entries := { chain.entries with items := chain.entries.items ++ [entry] } } =
        changed := by
  simp only [append, bind_eq_ok_iff, exists_unit_iff, Sequence.append_eq_ok_iff,
    pure_eq_ok_iff] at ran
  obtain ⟨accepted, _, ⟨-, -, rfl⟩, same⟩ := ran
  exact ⟨accepted, same⟩

theorem extended_of_append (ran : chain.append entry = .ok changed) (ordered : WellOrdered chain.kinds) :
    WellOrdered (chain.kinds ++ [entry.kind]) ∧ changed.countDown = chain.extended [entry] := by
  obtain ⟨accepted, rfl⟩ := append_eq_ok ran
  exact ⟨(accept_eq_ok_iff ordered).mp accepted, rfl⟩

/-- Reading takes the entries that are counted, or all up to the first bytes that begin no entry,
and stops there. -/
theorem takes_readEntries (standard : chain.Standard) (enough : entries.length < rounds)
    (fine : ∀ entry ∈ entries, entry.Standard ∧ entry.validate = .ok ())
    (ordered : WellOrdered (chain.kinds ++ entries.map ChainEntry.kind))
    (ends : chain.pending = some entries.length ∨ chain.pending = none ∧
      ((entries.map ChainEntry.kind).getLast? = some .block0 ∨ ChainEntry.NoEntry rest)) :
    Edit.Takes (readEntries rounds) chain (entries.flatMap Fragment.toBytes) rest
      (Fragment.totalSize entries) (chain.extended entries) := by
  induction entries generalizing chain rounds with
  | nil =>
    obtain ⟨rounds, rfl⟩ : ∃ more, rounds = more + 1 := ⟨rounds - 1, by simp at enough; omega⟩
    have stops : Edit.Takes (pure 0) chain [] rest 0 chain := .pure 0 chain rest
    rw [extended_nil]
    refine .get_bind fun stream _ => ?_
    simp only [List.flatMap_nil, Fragment.totalSize]
    rcases ends with counted | ⟨uncounted, closed⟩
    · rw [List.length_nil] at counted
      rwa [if_pos counted]
    · have absent : ChainEntry.NoEntry rest := closed.resolve_left (by simp)
      rw [if_neg (by simp [uncounted])]
      refine .look (.fromStream (.peek 8 rest) chain) ?_
      by_cases short : (rest.take 8).length < 8
      · rwa [if_pos short]
      · rw [if_neg short]
        refine .look (.fromStream (ChainEntry.serves_sniff_none absent) chain) ?_
        simpa [uncounted] using stops
  | cons first others ih =>
    obtain ⟨rounds, rfl⟩ : ∃ more, rounds = more + 1 := ⟨rounds - 1, by simp at enough; omega⟩
    obtain ⟨⟨standardFirst, validFirst⟩, fineLater⟩ := List.forall_mem_cons.mp fine
    have orderedLater : WellOrdered (chain.kinds ++ [first.kind] ++ others.map ChainEntry.kind) := by
      rwa [List.append_assoc, List.singleton_append]
    obtain ⟨grown, appends, counts⟩ :=
      append_countDown standard (wellOrdered_of_append orderedLater)
    have waiting : chain.pending ≠ some 0 := by
      rcases ends with counted | ⟨uncounted, -⟩
      · simp [counted]
      · simp [uncounted]
    have long : ¬((Fragment.toBytes first ++ others.flatMap Fragment.toBytes ++ rest).take 8).length
        < 8 := by
      have exact := Fragment.Lawful.length_toBytes first
      have occupied := ChainEntry.le_size validFirst
      rw [List.length_take, List.length_append, List.length_append]
      simp only [Size.entryHeader, Fragment.size] at exact occupied
      omega
    have counted : Edit.Takes (Edit.onObject (modify countDown)) grown []
        (others.flatMap Fragment.toBytes ++ rest) () (chain.extended [first]) := by
      rw [← counts]
      exact .onObject (Edit.modify_eq_ok_iff.mpr rfl) _
    refine .get_bind fun stream _ => ?_
    simp only [if_neg waiting, List.flatMap_cons, Fragment.totalSize]
    refine .look (.fromStream (.peek 8 _) chain) ?_
    simp only [if_neg long]
    refine .look (.fromStream (by
      rw [List.append_assoc]
      exact ChainEntry.serves_sniff standardFirst validFirst _) chain) ?_
    refine .bind (.fromStream (.readNew (ChainEntry.takes_read standardFirst validFirst _)) chain) ?_
    refine .look (.onObject (Edit.change_of_ok appends) _) (.look counted ?_)
    rw [extended_cons chain first others]
    by_cases closing : chain.pending.isNone ∧ first.kind = .block0
    · rw [if_pos closing]
      obtain rfl : others = [] := by
        rw [List.map_cons, closing.2] at ordered
        exact List.map_eq_nil_iff.mp (eq_nil_of_wellOrdered_block0 ordered)
      rw [extended_nil]
      exact .pure _ _ rest
    · rw [if_neg closing]
      have standardGrown : (chain.extended [first]).Standard :=
        standard.extended (by simpa using standardFirst)
      have later : Edit.Takes (readEntries rounds) (chain.extended [first])
          (others.flatMap Fragment.toBytes) rest (Fragment.totalSize others)
          ((chain.extended [first]).extended others) := by
        refine ih standardGrown (by simpa using enough) fineLater ?_ ?_
        · rwa [kinds_extended]
        · rcases ends with counted | ⟨uncounted, closed | absent⟩
          · exact .inl (by simp [extended, counted])
          · refine .inr ⟨by simp [extended, uncounted], .inl ?_⟩
            have going : first.kind ≠ .block0 := fun same => closing ⟨by simp [uncounted], same⟩
            rw [List.map_cons, List.getLast?_cons] at closed
            cases last : (others.map ChainEntry.kind).getLast? with
            | none => simp [last, going] at closed
            | some kind => simpa [last] using closed
          · exact .inr ⟨by simp [extended, uncounted], .inr absent⟩
      exact .last later (.pure _ _ rest)

/-- The entries that rounds of reading added, what they took, and why they stopped where they did:
the count was reached, or it was not known and the chain is closed or no entry begins in what is
left. -/
structure ReadsOn (chain : SignatureChain) (entries : List ChainEntry) (before after : Stream) :
    Prop where
  advances : before.Advances after (entries.flatMap Fragment.toBytes)
  fine : ∀ entry ∈ entries, entry.Standard ∧ entry.validate = .ok ()
  ordered : WellOrdered (chain.kinds ++ entries.map ChainEntry.kind)
  counted : ∀ expected, chain.pending = some expected → entries.length ≤ expected
  stopped : chain.pending = none →
    (entries.map ChainEntry.kind).getLast? = some .block0 ∨ ChainEntry.NoEntry after.unread

namespace ReadsOn

variable {before between after : Stream}

theorem nil (ordered : WellOrdered chain.kinds) (advances : before.Advances after [])
    (absent : chain.pending = none → ChainEntry.NoEntry after.unread) :
    chain.ReadsOn [] before after where
  advances := advances
  fine := by simp
  ordered := by simpa using ordered
  counted _ _ := Nat.zero_le _
  stopped uncounted := .inr (absent uncounted)

/-- A block0 entry closes a chain whose length is not known. -/
theorem closing (advances : before.Advances after (Fragment.toBytes entry))
    (fine : entry.Standard ∧ entry.validate = .ok ())
    (ordered : WellOrdered (chain.kinds ++ [entry.kind])) (uncounted : chain.pending = none)
    (closes : entry.kind = .block0) : chain.ReadsOn [entry] before after where
  advances := by simpa using advances
  fine := by simpa using fine
  ordered := ordered
  counted := by simp [uncounted]
  stopped _ := .inl (by simp [closes])

theorem cons (advances : before.Advances between (Fragment.toBytes entry))
    (fine : entry.Standard ∧ entry.validate = .ok ()) (waiting : chain.pending ≠ some 0)
    (later : (chain.extended [entry]).ReadsOn entries between after) :
    chain.ReadsOn (entry :: entries) before after where
  advances := by
    rw [List.flatMap_cons]
    exact advances.trans later.advances
  fine := List.forall_mem_cons.mpr ⟨fine, later.fine⟩
  ordered := by
    have ordered := later.ordered
    rwa [kinds_extended, List.append_assoc] at ordered
  counted expected counted := by
    have bounded := later.counted (expected - 1) (by simp [extended, counted])
    have more : expected ≠ 0 := fun none => waiting (by rw [counted, none])
    rw [List.length_cons]
    omega
  stopped uncounted := by
    rcases later.stopped (by simp [extended, uncounted]) with closed | absent
    · left
      rw [List.map_cons, List.getLast?_cons, closed]
      rfl
    · exact .inr absent

end ReadsOn

theorem readEntries_sound (standard : chain.Standard) (ordered : WellOrdered chain.kinds)
    (steady : stream.Steady) (enough : stream.unread.length < rounds)
    (ran : readEntries rounds (chain, stream) = .ok count (changed, left)) :
    ∃ entries, changed = chain.extended entries ∧ count = Fragment.totalSize entries ∧
      chain.ReadsOn entries stream left := by
  induction rounds generalizing chain stream count with
  | zero => omega
  | succ rounds ih =>
    -- Every way out of a round before an entry is appended takes nothing.
    have stopped {other : Stream} (advances : stream.Advances other [])
        (absent : chain.pending = none → ChainEntry.NoEntry other.unread)
        (out : (pure 0 : Edit (SignatureChain × Stream) Nat) (chain, other) =
          .ok count (changed, left)) :
        ∃ entries, changed = chain.extended entries ∧ count = Fragment.totalSize entries ∧
          chain.ReadsOn entries stream left := by
      simp only [Edit.pure_eq_ok_iff, Prod.mk.injEq] at out
      obtain ⟨rfl, rfl, rfl⟩ := out
      exact ⟨[], (extended_nil chain).symm, rfl, .nil ordered advances absent⟩
    simp only [readEntries, Edit.bind_eq_ok_iff, Edit.get_eq_ok_iff] at ran
    obtain ⟨_, _, ⟨rfl, rfl⟩, ran⟩ := ran
    by_cases reached : chain.pending = some 0
    · rw [if_pos reached] at ran
      exact stopped (.refl steady) (by simp [reached]) ran
    rw [if_neg reached] at ran
    simp only [Edit.bind_eq_ok_iff, Prod.exists, Edit.fromStream_eq_ok_iff] at ran
    obtain ⟨head, _, looked, ⟨peeked, rfl⟩, ran⟩ := ran
    obtain ⟨rfl, looks⟩ := Edit.peek_sound steady peeked
    by_cases short : (stream.unread.take 8).length < 8
    · rw [if_pos short] at ran
      rw [List.length_take, show stream.unread = looked.unread from looks.unread] at short
      exact stopped looks (fun _ => .inl (by omega)) ran
    rw [if_neg short] at ran
    simp only [Edit.bind_eq_ok_iff, Prod.exists, Edit.fromStream_eq_ok_iff] at ran
    obtain ⟨found, _, between, ⟨sniffed, rfl⟩, ran⟩ := ran
    obtain ⟨sniffs, absent, known⟩ := ChainEntry.sniff_sound looks.steady sniffed
    cases found with
    | none =>
      by_cases uncounted : chain.pending.isNone = true
      · rw [if_pos uncounted] at ran
        refine stopped (looks.trans sniffs) (fun _ => ?_) ran
        rw [show between.unread = looked.unread from sniffs.unread.symm]
        exact absent rfl
      · simp only [if_neg uncounted, Edit.throw_ne_ok] at ran
    | some blank =>
      obtain ⟨kind, format, rfl⟩ := known blank rfl
      simp only [Edit.bind_eq_ok_iff, Prod.exists, Edit.fromStream_eq_ok_iff, Edit.readNew_eq_ok_iff,
        Edit.onObject_eq_ok_iff, Edit.change_eq_ok_iff, Edit.modify_eq_ok_iff] at ran
      obtain ⟨first, entry, _, further, ⟨read, rfl⟩, _, _, _, ⟨grows, rfl⟩, _, _, _, ⟨counts, rfl⟩,
        ran⟩ := ran
      obtain ⟨takes, rfl, valid, standardEntry, -, occupied⟩ :=
        ChainEntry.read_sound sniffs.steady read
      obtain ⟨orderedEntry, extension⟩ := extended_of_append grows ordered
      have advances := (looks.trans sniffs).trans takes
      rw [List.nil_append, List.nil_append] at advances
      rw [← counts, extension] at ran
      by_cases closes : chain.pending.isNone = true ∧ entry.kind = .block0
      · simp only [if_pos closes, Edit.pure_eq_ok_iff, Prod.mk.injEq] at ran
        obtain ⟨rfl, rfl, rfl⟩ := ran
        exact ⟨[entry], rfl, rfl, .closing advances ⟨standardEntry, valid⟩ orderedEntry
          (Option.isNone_iff_eq_none.mp closes.1) closes.2⟩
      · simp only [if_neg closes, Edit.bind_eq_ok_iff, Edit.pure_eq_ok_iff] at ran
        obtain ⟨more, _, ranMore, rfl, rfl⟩ := ran
        have fewer : further.unread.length < rounds := by
          have length := congrArg List.length advances.unread
          have exact : (Fragment.toBytes entry).length = entry.size :=
            Fragment.Lawful.length_toBytes entry
          have positive : 0 < Size.entryHeader := by decide
          rw [List.length_append, exact] at length
          omega
        have standardGrown : (chain.extended [entry]).Standard :=
          standard.extended (by simpa using standardEntry)
        obtain ⟨entries, rfl, rfl, later⟩ := ih standardGrown (by rwa [kinds_extended])
          advances.steady fewer ranMore
        exact ⟨entry :: entries, (extended_cons chain entry entries).symm, rfl,
          .cons advances ⟨standardEntry, valid⟩ reached later⟩

@[simp] theorem items_extended_expecting (pending : Option Nat) (entries : List ChainEntry) :
    ((expecting pending).extended entries).entries.items = entries := by
  simp [extended, expecting, Sequence.empty]

/-- A chain without bounds is the empty one with its entries added and nothing left to come. -/
theorem Standard.settle_extended (standard : chain.Standard) (settled : chain.pending = some 0)
    (counted : ∀ expected, pending = some expected → expected = chain.length) :
    ((expecting pending).extended chain.entries.items).settle = chain := by
  have whole : chain = ⟨{ (Sequence.empty none : Sequence ChainEntry) with
      items := chain.entries.items }, some 0⟩ := by
    rw [← standard.unbounded, ← settled]
  have nothingLeft : ((pending.map (· - chain.entries.items.length)).getD 0) = 0 := by
    cases pending with
    | none => rfl
    | some expected =>
      rw [counted expected rfl]
      exact Nat.sub_self _
  rw [SignatureChain.extended, settle, expecting, nothingLeft]
  exact whole.symm

theorem length_le_totalSize (each : ∀ entry ∈ entries, entry.validate = .ok ()) :
    entries.length ≤ Fragment.totalSize entries := by
  induction entries with
  | nil => simp
  | cons first others ih =>
    obtain ⟨valid, later⟩ := List.forall_mem_cons.mp each
    have occupied : Size.entryHeader ≤ Fragment.size first := ChainEntry.le_size valid
    have positive : 0 < Size.entryHeader := by decide
    have := ih later
    rw [List.length_cons, Fragment.totalSize]
    omega

/-- A valid chain is read back from its own bytes if its entries are counted or it ends where no
entry begins. -/
theorem takes_read (standard : chain.Standard) (valid : chain.validate = .ok ())
    (ends : pending = some chain.length ∨
      pending = none ∧ (chain.isTerminated = true ∨ ChainEntry.NoEntry rest)) :
    Edit.Takes read (expecting pending) (Fragment.toBytes chain) rest chain.size chain := by
  obtain ⟨settled, ordered, each⟩ := standard.validate_eq_ok_iff.mp valid
  have fine : ∀ entry ∈ chain.entries.items, entry.Standard ∧ entry.validate = .ok () :=
    fun entry member => ⟨standard.entries entry member, each entry member⟩
  have closed : ((expecting pending).extended chain.entries.items).settle = chain := by
    refine standard.settle_extended settled ?_
    rintro expected rfl
    simpa using ends
  have settles : Edit.Takes (Edit.onObject (modify settle))
      ((expecting pending).extended chain.entries.items) [] rest () chain :=
    .onObject (Edit.modify_eq_ok_iff.mpr closed) rest
  have checks : Edit.Takes (Edit.onObject (Edit.ask validate)) chain [] rest () chain :=
    .onObject (Edit.ask_eq_ok_iff.mpr ⟨valid, rfl⟩) rest
  refine .look (.ask fun _ => require_of rfl) (.get_bind fun stream held => ?_)
  have enough : chain.entries.items.length < stream.unread.length + 1 := by
    have exact : (Fragment.toBytes chain).length = Fragment.totalSize chain.entries.items :=
      Fragment.Lawful.length_toBytes chain
    have few := length_le_totalSize each
    rw [held, List.length_append, exact]
    omega
  have reads : Edit.Takes (readEntries (stream.unread.length + 1)) (expecting pending)
      (Fragment.toBytes chain) rest chain.size ((expecting pending).extended chain.entries.items) := by
    rw [toBytes_eq]
    refine takes_readEntries (standard_expecting pending) enough fine ordered ?_
    rcases ends with rfl | ⟨rfl, closing | absent⟩
    · exact .inl rfl
    · exact .inr ⟨rfl, .inl (isTerminated_iff.mp closing)⟩
    · exact .inr ⟨rfl, .inr absent⟩
  exact .last reads (.look settles (.look checks (.pure chain.size chain rest)))

/-- A chain that was read is valid and has just the bytes that were taken, and reading has stopped
where the count or the bytes say. -/
theorem read_sound (steady : stream.Steady)
    (ran : read (expecting pending, stream) = .ok count (chain, left)) :
    chain.validate = .ok () ∧ chain.Standard ∧
      stream.Advances left (Fragment.toBytes chain) ∧ count = chain.size ∧
      (∀ expected, pending = some expected → chain.length = expected) ∧
      (pending = none → chain.isTerminated = true ∨ ChainEntry.NoEntry left.unread) := by
  simp only [read, Edit.bind_eq_ok_iff, Edit.ask_eq_ok_iff, Edit.get_eq_ok_iff, Edit.pure_eq_ok_iff,
    Edit.onObject_eq_ok_iff, Edit.modify_eq_ok_iff, Prod.exists, Prod.mk.injEq] at ran
  obtain ⟨_, _, _, ⟨-, rfl, rfl⟩, _, _, _, _, ⟨⟨rfl, rfl⟩, rfl, rfl⟩, _, extended, _, reads,
    _, _, _, ⟨rfl, rfl⟩, _, _, _, ⟨⟨valid, rfl⟩, rfl⟩, rfl, rfl, rfl⟩ := ran
  obtain ⟨entries, rfl, rfl, went⟩ := readEntries_sound (standard_expecting pending) trivial steady
    (Nat.lt_succ_self _) reads
  have items : ((expecting pending).extended entries).settle.entries.items = entries :=
    items_extended_expecting pending entries
  have standard : ((expecting pending).extended entries).settle.Standard := by
    refine ⟨rfl, fun entry member => ?_⟩
    rw [items] at member
    exact (went.fine entry member).1
  refine ⟨valid, standard, ?_, ?_, ?_, ?_⟩
  · rw [toBytes_eq, items]
    exact went.advances
  · rw [size, Sequence.totalSize, items]
  · rintro expected rfl
    have finished := (standard.validate_eq_ok_iff.mp valid).1
    have few := went.counted expected rfl
    rw [length, Sequence.length, items]
    simp only [settle, extended, expecting, Option.map_some, Option.getD_some, Option.some.injEq] at finished
    omega
  · intro uncounted
    rw [isTerminated_iff, kinds, items]
    exact went.stopped uncounted

theorem Standard.append (standard : chain.Standard) (fine : entry.Standard)
    (ran : chain.append entry = .ok changed) : changed.Standard := by
  obtain ⟨-, rfl⟩ := append_eq_ok ran
  refine ⟨by rw [standard.unbounded], fun other member => ?_⟩
  rcases List.mem_append.mp member with before | here
  · exact standard.entries other before
  · rwa [List.mem_singleton.mp here]

/-- A valid chain stays valid when a valid entry is appended. -/
theorem Standard.validate_append (standard : chain.Standard) (valid : chain.validate = .ok ())
    (fine : entry.Standard) (validEntry : entry.validate = .ok ())
    (ran : chain.append entry = .ok changed) : changed.validate = .ok () := by
  obtain ⟨settled, ordered, each⟩ := standard.validate_eq_ok_iff.mp valid
  refine (standard.append fine ran).validate_eq_ok_iff.mpr ?_
  obtain ⟨accepted, rfl⟩ := append_eq_ok ran
  refine ⟨settled, ?_, fun other member => ?_⟩
  · simpa [kinds] using (accept_eq_ok_iff ordered).mp accepted
  · rcases List.mem_append.mp member with before | here
    · exact each other before
    · rwa [List.mem_singleton.mp here]

theorem validate_empty : empty.validate = .ok () :=
  (standard_expecting (some 0)).validate_eq_ok_iff.mpr ⟨rfl, trivial, by
    simp [expecting, Sequence.empty]⟩

theorem length_le_size (valid : chain.validate = .ok ()) : chain.length ≤ chain.size := by
  obtain ⟨-, -, validEntries⟩ := validate_eq_ok_iff.mp valid
  obtain ⟨each, -⟩ := Sequence.validate_bounds validEntries
  exact length_le_totalSize fun entry member => (each entry member).1

/-- Every entry is aligned, so a chain is. -/
theorem Standard.aligned (standard : chain.Standard) (valid : chain.validate = .ok ()) :
    chain.size % 8 = 0 := by
  obtain ⟨-, -, each⟩ := standard.validate_eq_ok_iff.mp valid
  rw [size, Sequence.totalSize]
  generalize chain.entries.items = entries at each
  induction entries with
  | nil => rfl
  | cons first others ih =>
    obtain ⟨valid, later⟩ := List.forall_mem_cons.mp each
    have aligned : Fragment.size first % 8 = 0 := (ChainEntry.validate_eq_ok_iff.mp valid).2.1.aligned
    have := ih later
    rw [Fragment.totalSize]
    omega

/-- The chain registers no checksums over its entries. -/
def Plain (chain : SignatureChain) : Prop :=
  chain.entries.crcAddresses = []

theorem Standard.plain (standard : chain.Standard) : chain.Plain := by
  rw [Plain, standard.unbounded]
  rfl

/-- Refreshing a chain refreshes its entries. -/
theorem Plain.update_eq_ok_iff (plain : chain.Plain) :
    Fragment.update chain = .ok answer changed ↔
      ∃ entries, List.Forall₂ (fun entry other => ChainEntry.update entry = .ok () other)
          chain.entries.items entries ∧
        { chain with entries := { chain.entries with items := entries } } = changed := by
  rw [show (Fragment.update chain = .ok answer changed) ↔ Edit.within SignatureChain.entries
      (fun chain entries => { chain with entries := entries }) Sequence.update chain =
        .ok answer changed from Iff.rfl, Edit.within_eq_ok_iff]
  have crcs : chain.entries.crcAddresses = [] := plain
  simp only [Sequence.update, Sequence.updateCrc, Edit.bind_eq_ok_iff, Edit.get_eq_ok_iff]
  constructor
  · rintro ⟨_, ⟨_, _, ran, _, _, ⟨rfl, rfl⟩, stored⟩, rfl⟩
    obtain ⟨entries, each, rfl⟩ := Edit.within_eq_ok_iff.mp ran
    simp only [crcs, List.mergeSort_nil, Sequence.storeCrcs, Edit.pure_eq_ok_iff] at stored
    obtain ⟨-, rfl⟩ := stored
    exact ⟨entries, Edit.each_eq_ok_iff.mp each, by rw [crcs]⟩
  · rintro ⟨entries, each, rfl⟩
    refine ⟨{ chain.entries with items := entries }, ⟨(), _, Edit.within_eq_ok_iff.mpr ⟨entries,
      Edit.each_eq_ok_iff.mpr each, rfl⟩, _, _, ⟨rfl, rfl⟩, ?_⟩, rfl⟩
    simp only [crcs, List.mergeSort_nil, Sequence.storeCrcs, Edit.pure_eq_ok_iff, and_self]

theorem Standard.update (standard : chain.Standard)
    (ran : Fragment.update chain = .ok answer changed) : changed.Standard := by
  obtain ⟨entries, each, rfl⟩ := standard.plain.update_eq_ok_iff.mp ran
  refine ⟨by rw [standard.unbounded], Edit.forall_of_forall₂ (fun entry member other ran => ?_) each⟩
  exact (standard.entries entry member).update ran

/-- Refreshing leaves a valid chain alone. -/
theorem Plain.update_of_valid (plain : chain.Plain) (valid : chain.validate = .ok ()) :
    Fragment.update chain = .ok () chain := by
  obtain ⟨-, -, validEntries⟩ := validate_eq_ok_iff.mp valid
  obtain ⟨each, -⟩ := Sequence.validate_bounds validEntries
  refine plain.update_eq_ok_iff.mpr ⟨chain.entries.items, List.forall₂_same.mpr ?_, rfl⟩
  exact fun entry member => ChainEntry.update_of_valid (each entry member).1

theorem Standard.update_of_valid (standard : chain.Standard) (valid : chain.validate = .ok ()) :
    Fragment.update chain = .ok () chain :=
  standard.plain.update_of_valid valid

/-- Whatever its layout, refreshing shows in no valid chain. -/
theorem update_same (valid : chain.validate = .ok ())
    (ran : Fragment.update chain = .ok answer changed) : changed = chain := by
  obtain ⟨-, -, validEntries⟩ := validate_eq_ok_iff.mp valid
  obtain ⟨each, -⟩ := Sequence.validate_bounds validEntries
  obtain ⟨entries, updated, rfl⟩ := Edit.within_eq_ok_iff.mp ran
  have same : entries = chain.entries :=
    Sequence.update_same validEntries
      (fun entry member other updated => ChainEntry.update_same (each entry member).1 updated) updated
  rw [same]

/-- Reading a chain and laying out its bytes are inverse. Whatever is read, counted or not, is a
valid chain with just the bytes that were taken, and reading stopped only where it has to; and a
valid chain is read back from its own bytes, whatever follows them if its entries are counted or a
block0 entry closes it, and before bytes that begin no entry in any case. -/
theorem read_inverts_toBytes (pending : Option Nat) :
    (∀ bytes count chain left,
      read (expecting pending, Stream.ofBytes bytes) = .ok count (chain, left) →
        chain.validate = .ok () ∧ Fragment.toBytes chain = bytes.take count ∧
          count ≤ bytes.length ∧ left.unread = bytes.drop count ∧ left.position = count ∧
          chain.pending = some 0 ∧
          (∀ expected, pending = some expected → chain.length = expected) ∧
          (pending = none → chain.isTerminated = true ∨
            ChainEntry.NoEntry (bytes.drop count))) ∧
    ∀ (chain : SignatureChain) (rest : Bytes), chain.Standard → chain.validate = .ok () →
      (pending = some chain.length ∨
        pending = none ∧ (chain.isTerminated = true ∨ ChainEntry.NoEntry rest)) →
      ∃ left, read (expecting pending, Stream.ofBytes (Fragment.toBytes chain ++ rest)) =
        .ok chain.size (chain, left) ∧ left.unread = rest ∧ left.position = chain.size := by
  constructor
  · intro bytes count chain left ran
    obtain ⟨valid, -, advances, rfl, counted, stopped⟩ :=
      read_sound (Stream.steady_ofBytes bytes) ran
    have exact : (Fragment.toBytes chain).length = chain.size := Fragment.Lawful.length_toBytes chain
    have split : bytes = Fragment.toBytes chain ++ left.unread := by
      rw [← advances.unread, Stream.unread_ofBytes]
    have rest : left.unread = bytes.drop chain.size := by
      rw [split, List.drop_left' exact]
    refine ⟨valid, ?_, ?_, rest, ?_, ?_, counted, ?_⟩
    · rw [split, List.take_left' exact]
    · rw [split, List.length_append, exact]
      exact Nat.le_add_right _ _
    · rw [advances.position, Stream.position_ofBytes, Nat.zero_add, exact]
    · exact (validate_eq_ok_iff.mp valid).1
    · rwa [← rest]
  · intro chain rest standard valid ends
    obtain ⟨left, ran, advances⟩ := takes_read standard valid ends
      (Stream.ofBytes (Fragment.toBytes chain ++ rest)) (Stream.steady_ofBytes _) (by simp)
    refine ⟨left, ran, advances.unread_eq (by simp), ?_⟩
    rw [advances.position, Stream.position_ofBytes, Nat.zero_add]
    exact Fragment.Lawful.length_toBytes chain

/-- A key to build chains of. -/
def plainKey : Except Failure PublicKey :=
  PublicKey.ofCoordinates .singleRoot .secp256r1 (Bytes.zeros 32) (Bytes.zeros 32) {}

/-- A chain that is left open behind its root entry. -/
def openChain : Except Failure SignatureChain := do
  empty.append (← ChainEntry.root (← plainKey) .intel)

/-- A root entry and the block0 entry that closes the chain. -/
def closedChain : Except Failure SignatureChain := do
  let chain ← openChain
  chain.append (← ChainEntry.block0 .intel)

theorem standard_openChain (built : openChain = .ok chain) :
    chain.Standard ∧ chain.validate = .ok () := by
  simp only [openChain, bind_eq_ok_iff] at built
  obtain ⟨key, given, root, rooted, grown⟩ := built
  obtain ⟨standardKey, -⟩ := PublicKey.standard_ofCoordinates given
  obtain ⟨standardRoot, validRoot, -⟩ := ChainEntry.standard_root standardKey rooted
  have blank : empty.Standard := standard_expecting (some 0)
  exact ⟨blank.append standardRoot grown,
    blank.validate_append validate_empty standardRoot validRoot grown⟩

theorem standard_closedChain (built : closedChain = .ok chain) :
    chain.Standard ∧ chain.validate = .ok () := by
  simp only [closedChain, bind_eq_ok_iff] at built
  obtain ⟨begun, opened, closing, closes, grown⟩ := built
  obtain ⟨standard, valid⟩ := standard_openChain opened
  obtain ⟨standardClosing, validClosing, -⟩ := ChainEntry.standard_block0 closes
  exact ⟨standard.append standardClosing grown,
    standard.validate_append valid standardClosing validClosing grown⟩

theorem openChain_exists :
    ∃ chain, openChain = .ok chain ∧ chain.isTerminated = false ∧
      chain.rootEntry?.isSome = true ∧ chain.size = 120 := by
  have there : (openChain.toOption.map fun chain =>
      (chain.isTerminated, chain.rootEntry?.isSome, chain.size)) = some (false, true, 120) := by
    decide +kernel
  obtain ⟨chain, built, seen⟩ := exists_of_map_eq_some there
  exact ⟨chain, built, by simpa using seen⟩

theorem closedChain_exists :
    ∃ chain, closedChain = .ok chain ∧ chain.isTerminated = true ∧ chain.length = 2 ∧
      chain.size = 256 := by
  have there : (closedChain.toOption.map fun chain =>
      (chain.isTerminated, chain.length, chain.size)) = some (true, 2, 256) := by decide +kernel
  obtain ⟨chain, built, seen⟩ := exists_of_map_eq_some there
  exact ⟨chain, built, by simpa using seen⟩

theorem read_inverts_toBytes_closedChain :
    ∃ chain left, closedChain = .ok chain ∧ chain.length = 2 ∧
      read (expecting none, Stream.ofBytes (Fragment.toBytes chain ++ [7])) =
        .ok chain.size (chain, left) ∧ left.unread = [7] ∧ left.position = chain.size ∧
      chain.pending = some 0 := by
  obtain ⟨chain, built, closed, two, -⟩ := closedChain_exists
  obtain ⟨standard, valid⟩ := standard_closedChain built
  obtain ⟨left, ran, rest, position⟩ :=
    (read_inverts_toBytes none).2 chain [7] standard valid (.inr ⟨rfl, .inl closed⟩)
  obtain ⟨-, -, -, -, -, settled, -⟩ := (read_inverts_toBytes none).1 _ _ _ _ ran
  exact ⟨chain, left, built, two, ran, rest, position, settled⟩

end SecureBoot.SignatureChain
