import SecureBoot.Proofs.Chain

/-!
Chains as they grow. Whatever is tried on a new chain, its entries stay in order, because an entry
is taken exactly when it leaves them so; and the order tells how far a chain has come and which key
signs what follows it.
-/

namespace SecureBoot

namespace ChainState

variable {kinds : List EntryKind} {state : ChainState}

/-- The kinds that the entries of a chain in a state have. -/
def Describes : ChainState → List EntryKind → Prop
  | empty, kinds => kinds = []
  | hasRoot, kinds => ∃ leader : EntryKind, leader.isRoot = true ∧ kinds = [leader]
  | hasRootAndKeys count, kinds =>
    ∃ leader : EntryKind, leader.isRoot = true ∧ 0 < count ∧
      kinds = leader :: List.replicate count .publicKey
  | terminated, kinds =>
    ∃ (leader : EntryKind) (count : Nat), leader.isRoot = true ∧
      kinds = leader :: (List.replicate count .publicKey ++ [.block0])

end ChainState

section Order

variable {first : EntryKind} {kinds : List EntryKind}

private theorem eq_replicate_publicKey (single : ∀ kind ∈ kinds, kind.isRoot = false)
    (unclosed : .block0 ∉ kinds) : kinds = List.replicate kinds.length .publicKey := by
  apply List.eq_replicate_iff.mpr
  refine ⟨rfl, fun kind member => ?_⟩
  have notRoot := single kind member
  cases kind with
  | publicKey => rfl
  | block0 => exact absurd member unclosed
  | root | multiRoot => simp [EntryKind.isRoot] at notRoot

/-- Behind the root of an ordered chain there are public keys and at most one block0 entry. -/
theorem wellOrdered_cons_iff :
    WellOrdered (first :: kinds) ↔ first.isRoot = true ∧ ∃ count,
      kinds = List.replicate count .publicKey ∨
        kinds = List.replicate count .publicKey ++ [.block0] := by
  constructor
  · rintro ⟨root, single, inner⟩
    refine ⟨root, ?_⟩
    rcases List.eq_nil_or_concat kinds with rfl | ⟨front, last, rfl⟩
    · exact ⟨0, .inl rfl⟩
    rw [List.concat_eq_append] at single inner ⊢
    have early : EntryKind.block0 ∉ front := by
      intro member
      apply inner
      rw [← List.cons_append, List.dropLast_concat]
      exact List.mem_cons_of_mem first member
    have fronts := eq_replicate_publicKey
      (fun kind member => single kind (List.mem_append_left _ member)) early
    by_cases closing : last = .block0
    · exact ⟨front.length, .inr (by rw [← fronts, closing])⟩
    · refine ⟨(front ++ [last]).length, .inl (eq_replicate_publicKey single ?_)⟩
      intro member
      rcases List.mem_append.mp member with before | here
      · exact early before
      · exact closing (List.mem_singleton.mp here).symm
  · rintro ⟨root, count, rfl | rfl⟩
    · refine ⟨root, fun kind member => ?_, fun early => ?_⟩
      · rw [List.eq_of_mem_replicate member]
        rfl
      · rcases List.mem_cons.mp (List.dropLast_subset _ early) with same | later
        · simp [← same, EntryKind.isRoot] at root
        · simpa using List.eq_of_mem_replicate later
    · refine ⟨root, fun kind member => ?_, fun early => ?_⟩
      · rcases List.mem_append.mp member with before | here
        · rw [List.eq_of_mem_replicate before]
          rfl
        · rw [List.mem_singleton.mp here]
          rfl
      · rw [← List.cons_append, List.dropLast_concat] at early
        rcases List.mem_cons.mp early with same | later
        · simp [← same, EntryKind.isRoot] at root
        · simpa using List.eq_of_mem_replicate later

private theorem ofKinds_root (root : first.isRoot = true) :
    ChainState.ofKinds [first] = .hasRoot := by
  cases first <;> simp_all [EntryKind.isRoot, ChainState.ofKinds]

private theorem ofKinds_keys (first : EntryKind) (count : Nat) :
    ChainState.ofKinds (first :: List.replicate (count + 1) .publicKey) =
      .hasRootAndKeys (count + 1) := by
  simp [ChainState.ofKinds, List.getLast?_cons, List.getLast?_replicate]

/-- An ordered chain is in the state that describes its kinds, and in no other. -/
theorem ofKinds_eq_iff (ordered : WellOrdered kinds) (state : ChainState) :
    ChainState.ofKinds kinds = state ↔ state.Describes kinds := by
  constructor
  · rintro rfl
    cases kinds with
    | nil => rfl
    | cons first later =>
      obtain ⟨root, count, rfl | rfl⟩ := wellOrdered_cons_iff.mp ordered
      · cases count with
        | zero =>
          rw [List.replicate_zero, ofKinds_root root]
          exact ⟨first, root, rfl⟩
        | succ count =>
          rw [ofKinds_keys]
          exact ⟨first, root, Nat.succ_pos count, rfl⟩
      · rw [ofKinds_eq_terminated_iff.mpr (by simp [List.getLast?_cons])]
        exact ⟨first, count, root, rfl⟩
  · intro described
    cases state with
    | empty =>
      obtain rfl : kinds = [] := described
      rfl
    | hasRoot =>
      obtain ⟨first, root, rfl⟩ := described
      exact ofKinds_root root
    | hasRootAndKeys count =>
      obtain ⟨first, -, positive, rfl⟩ := described
      obtain ⟨fewer, rfl⟩ := Nat.exists_eq_succ_of_ne_zero (Nat.ne_of_gt positive)
      exact ofKinds_keys first fewer
    | terminated =>
      obtain ⟨first, count, -, rfl⟩ := described
      exact ofKinds_eq_terminated_iff.mpr (by simp [List.getLast?_cons])

end Order

/-- An entry that is no block0 entry and is valid has a key, which is valid. -/
theorem ChainEntry.key_of_valid {entry : ChainEntry} (valid : entry.validate = .ok ())
    (keyed : entry.kind ≠ .block0) :
    ∃ key, entry.key? = some key ∧ key.validate = .ok () := by
  obtain ⟨⟨-, validData, -⟩, -, -, validKind⟩ := validate_eq_ok_iff.mp valid
  have there := (filled_of_validateKind validKind).2.resolve_left keyed
  obtain ⟨header, data, slot⟩ := entry
  cases data with
  | root reserved key => exact ⟨key, rfl, (EntryData.validate_root.mp validData).2⟩
  | publicKey key => exact ⟨key, rfl, EntryData.validate_publicKey.mp validData⟩
  | block0 => exact absurd rfl keyed
  | multiRoot reserved keys =>
    obtain ⟨each, -⟩ := Sequence.validate_bounds (EntryData.validate_multiRoot.mp validData).2
    obtain ⟨first, others, listed⟩ := List.exists_cons_of_ne_nil there
    refine ⟨first, ?_, (each first ?_).1⟩
    · rw [key?, ChainEntry.keys, listed, List.head?_cons]
    · rw [show keys.items = first :: others from listed]
      exact List.mem_cons_self

namespace SignatureChain

variable {chain changed other : SignatureChain} {entries tried : List ChainEntry}
  {entry : ChainEntry} {answer : Unit}

/-- The entries that are no block0 entry. -/
def keyed (entries : List ChainEntry) : List ChainEntry :=
  entries.filter fun entry => decide (entry.kind ≠ .block0)

/-- The entry that signs what follows is the last one that is no block0 entry, if a block0 entry
stands nowhere but at the end and not alone. -/
theorem signingEntry_eq (inner : .block0 ∉ (entries.map ChainEntry.kind).dropLast)
    (begun : entries.head?.map ChainEntry.kind ≠ some .block0) :
    signingEntry entries = .ok (keyed entries).getLast? := by
  induction entries using signingEntry.induct with
  | case1 => rfl
  | case2 only closing => simp [closing] at begun
  | case3 only going => simp [signingEntry, keyed, going]
  | case4 before last =>
    have going : before.kind ≠ .block0 := by simpa using begun
    by_cases closing : last.kind = .block0
    · simp [signingEntry, keyed, going, closing]
    · simp [signingEntry, keyed, going, closing]
  | case5 first rest notOne notTwo ih =>
    match rest with
    | [] => exact absurd rfl (notOne)
    | [second] => exact absurd rfl (notTwo second)
    | second :: third :: others =>
      have going : first.kind ≠ .block0 := by simpa using begun
      have next : second.kind ≠ .block0 := by
        intro closing
        apply inner
        simp [closing]
      have more : keyed (second :: third :: others) ≠ [] := by simp [keyed, next]
      have goes : signingEntry (first :: second :: third :: others) =
          signingEntry (second :: third :: others) := rfl
      have kept : keyed (first :: second :: third :: others) =
          first :: keyed (second :: third :: others) := by simp [keyed, going]
      rw [goes, ih (fun early => inner ?_) (by simpa using next), kept, List.getLast?_cons,
        List.getLast?_eq_some_getLast more, Option.getD_some]
      rw [List.map_cons, List.map_cons, List.dropLast_cons_of_ne_nil (List.cons_ne_nil _ _)]
      exact List.mem_cons_of_mem _ early

/-- The chain of the given entries, none of them pending. -/
def ofEntries (entries : List ChainEntry) : SignatureChain :=
  ⟨{ (Sequence.empty none : Sequence ChainEntry) with items := entries }, some 0⟩

@[simp] theorem kinds_ofEntries (entries : List ChainEntry) :
    (ofEntries entries).kinds = entries.map ChainEntry.kind := rfl

/-- Overwriting an entry leaves a chain of entries. -/
theorem ofEntries_of_putEntry {index : Nat}
    (put : putEntry? (ofEntries entries) index entry = some changed) :
    changed = ofEntries (entries.set index entry) := by
  obtain ⟨others, puts, rfl⟩ := Option.map_eq_some_iff.mp put
  rw [Sequence.put?] at puts
  split at puts
  · obtain rfl := Option.some.inj puts
    rfl
  · cases puts

/-- A chain of valid entries is valid just if they stand in order. -/
theorem validate_ofEntries_iff (valid : ∀ entry ∈ entries, entry.validate = .ok ()) :
    (ofEntries entries).validate = .ok answer ↔ WellOrdered (entries.map ChainEntry.kind) := by
  rw [validate_eq_ok_iff, kinds_ofEntries]
  have checked : (ofEntries entries).entries.validate = .ok () := by
    simpa [ofEntries, Sequence.validate, Sequence.validateItems_eq_ok_iff, Sequence.checkCount,
      checkBound, Sequence.checkMagics, Sequence.checkCrcs, Sequence.empty,
      Fragment.validate] using valid
  rw [show (ofEntries entries).pending = some 0 from rfl]
  simp only [checked, true_and, and_true]

/-- An entry is taken just if it leaves the entries in order. -/
theorem append_ofEntries_iff (ordered : WellOrdered (entries.map ChainEntry.kind)) :
    (ofEntries entries).append entry = .ok changed ↔
      WellOrdered (entries.map ChainEntry.kind ++ [entry.kind]) ∧
        ofEntries (entries ++ [entry]) = changed := by
  simp only [append, state, kinds_ofEntries, bind_eq_ok_iff, exists_unit_iff,
    accept_eq_ok_iff ordered, pure_eq_ok_iff, Sequence.append_eq_ok_iff]
  simp [ofEntries, Sequence.empty]

/-- Entries are appended one after the other, and each of them is taken. -/
inductive AppendsAll : SignatureChain → List ChainEntry → SignatureChain → Prop
  | none (chain : SignatureChain) : AppendsAll chain [] chain
  | more {chain between changed : SignatureChain} {entry : ChainEntry} {later : List ChainEntry}
      (taken : chain.append entry = .ok between) (rest : AppendsAll between later changed) :
      AppendsAll chain (entry :: later) changed

/-- Extending a chain is appending the entries of the other one after the other. -/
theorem extend_eq_ok_iff :
    chain.extend other = .ok changed ↔ AppendsAll chain other.entries.items changed := by
  rw [extend]
  generalize other.entries.items = more
  induction more generalizing chain with
  | nil =>
    rw [List.foldlM_nil, pure_eq_ok_iff]
    constructor
    · rintro rfl
      exact .none chain
    · intro appended
      cases appended
      rfl
  | cons first later ih =>
    rw [List.foldlM_cons, bind_eq_ok_iff]
    constructor
    · rintro ⟨between, taken, rest⟩
      exact .more taken (ih.mp rest)
    · intro appended
      cases appended with
      | more taken rest => exact ⟨_, taken, ih.mpr rest⟩

theorem appendsAll_ofEntries_iff {more : List ChainEntry}
    (ordered : WellOrdered (entries.map ChainEntry.kind)) :
    AppendsAll (ofEntries entries) more changed ↔
      WellOrdered (entries.map ChainEntry.kind ++ more.map ChainEntry.kind) ∧
        ofEntries (entries ++ more) = changed := by
  induction more generalizing entries with
  | nil =>
    simp only [List.map_nil, List.append_nil]
    constructor
    · intro appended
      cases appended
      exact ⟨ordered, rfl⟩
    · rintro ⟨-, rfl⟩
      exact .none _
  | cons first later ih =>
    constructor
    · intro appended
      cases appended with
      | more taken rest =>
        obtain ⟨orderedFirst, rfl⟩ := (append_ofEntries_iff ordered).mp taken
        have rest := (ih (by simpa using orderedFirst)).mp rest
        simpa using rest
    · rintro ⟨orderedAll, rfl⟩
      have orderedFirst : WellOrdered ((entries ++ [first]).map ChainEntry.kind) := by
        rw [List.map_cons, List.append_cons] at orderedAll
        simpa using wellOrdered_of_append orderedAll
      refine .more ((append_ofEntries_iff ordered).mpr ⟨by simpa using orderedFirst, rfl⟩) ?_
      exact (ih orderedFirst).mpr ⟨by simpa using orderedAll, by simp⟩

/-- The key that signs what follows a chain is the one of its last entry that is no block0
entry. -/
theorem lastKey_ofEntries (ordered : WellOrdered (entries.map ChainEntry.kind))
    (valid : ∀ entry ∈ entries, entry.validate = .ok ()) (begun : entries ≠ []) :
    ∃ entry key, (keyed entries).getLast? = some entry ∧ entry.key? = some key ∧
      (ofEntries entries).lastKey = .ok (some key) := by
  obtain ⟨first, later, rfl⟩ := List.exists_cons_of_ne_nil begun
  obtain ⟨root, -, inner⟩ := ordered
  have going : first.kind ≠ .block0 := by
    intro closing
    simp [closing, EntryKind.isRoot] at root
  have nonempty : keyed (first :: later) ≠ [] := by simp [keyed, going]
  obtain ⟨entry, last⟩ : ∃ entry, (keyed (first :: later)).getLast? = some entry :=
    ⟨_, List.getLast?_eq_some_getLast nonempty⟩
  have member := List.mem_of_getLast? last
  rw [keyed, List.mem_filter, decide_eq_true_iff] at member
  obtain ⟨key, there, validKey⟩ := ChainEntry.key_of_valid (valid entry member.1) member.2
  have signs : signingEntry (first :: later) = .ok (some entry) := by
    rw [← last]
    exact signingEntry_eq inner (by simpa using going)
  refine ⟨entry, key, last, there, ?_⟩
  rw [lastKey, show (ofEntries (first :: later)).entries.items = first :: later from rfl,
    bind_of_ok signs]
  simp only [there]
  rw [bind_of_ok validKey]
  rfl

/-- The chain after an entry was tried on it, whether it was taken or not. -/
def attempt (chain : SignatureChain) (entry : ChainEntry) : SignatureChain :=
  (Edit.change (·.append entry)).after chain

/-- The new chain after entries were tried on it one after the other. -/
def attempts (tried : List ChainEntry) : SignatureChain :=
  tried.foldl attempt empty

/-- The chain has valid entries in order, and nothing is pending. -/
def Grown (chain : SignatureChain) : Prop :=
  ∃ entries, chain = ofEntries entries ∧ WellOrdered (entries.map ChainEntry.kind) ∧
    ∀ entry ∈ entries, entry.validate = .ok ()

theorem attempt_of_ok (taken : chain.append entry = .ok changed) :
    chain.attempt entry = changed :=
  Edit.after_change_of_ok (fun chain : SignatureChain => chain.append entry) taken

theorem attempt_of_error {failure : Failure} (refused : chain.append entry = .error failure) :
    chain.attempt entry = chain :=
  Edit.after_change_of_error (fun chain : SignatureChain => chain.append entry) refused

/-- Trying one valid entry keeps a chain in order. -/
theorem Grown.attempt (grown : chain.Grown) (valid : entry.validate = .ok ()) :
    (chain.attempt entry).Grown := by
  obtain ⟨entries, rfl, ordered, each⟩ := grown
  cases outcome : (ofEntries entries).append entry with
  | error failure =>
    rw [attempt_of_error outcome]
    exact ⟨entries, rfl, ordered, each⟩
  | ok changed =>
    obtain ⟨orderedMore, rfl⟩ := (append_ofEntries_iff ordered).mp outcome
    rw [attempt_of_ok outcome]
    refine ⟨entries ++ [entry], rfl, by simpa using orderedMore, fun other member => ?_⟩
    rcases List.mem_append.mp member with before | here
    · exact each other before
    · rwa [List.mem_singleton.mp here]

/-- Whatever valid entries are tried on a new chain, it stays in order. -/
theorem grown_attempts (valid : ∀ entry ∈ tried, entry.validate = .ok ()) :
    (attempts tried).Grown := by
  have begun : empty.Grown := ⟨[], rfl, trivial, by simp⟩
  rw [attempts]
  generalize empty = chain at begun
  induction tried generalizing chain with
  | nil => exact begun
  | cons first later ih =>
    obtain ⟨validFirst, validLater⟩ := List.forall_mem_cons.mp valid
    exact ih validLater (chain.attempt first) (begun.attempt validFirst)

/-- Chains grow in order and only so. Of the valid entries that are tried on a new chain, one after
the other and refused ones included, just those are taken that leave the kinds in order, and each is
added at the end; the kinds say in what state the chain is, and the last entry that is no block0
entry which key signs next. Extending a chain is appending entry by entry, all of them or none; and
a chain of valid entries, wherever they were overwritten, is valid just if they stand in order. -/
theorem chains_grow_in_order (tried : List ChainEntry)
    (valid : ∀ entry ∈ tried, entry.validate = .ok ()) :
    WellOrdered (attempts tried).kinds ∧
    (∀ entry,
      ((∃ changed, (attempts tried).append entry = .ok changed) ↔
        WellOrdered ((attempts tried).kinds ++ [entry.kind])) ∧
      (∀ changed, (attempts tried).append entry = .ok changed →
        changed.entries.items = (attempts tried).entries.items ++ [entry] ∧
          attempts (tried ++ [entry]) = changed) ∧
      (∀ failure, (attempts tried).append entry = .error failure →
        attempts (tried ++ [entry]) = attempts tried)) ∧
    (∀ state, (attempts tried).state = state ↔ state.Describes (attempts tried).kinds) ∧
    ((attempts tried).entries.items = [] → (attempts tried).lastKey = .ok none) ∧
    ((attempts tried).entries.items ≠ [] →
      ∃ entry key, (keyed (attempts tried).entries.items).getLast? = some entry ∧
        entry.key? = some key ∧ (attempts tried).lastKey = .ok (some key)) ∧
    (∀ chain other changed : SignatureChain,
      chain.extend other = .ok changed ↔ AppendsAll chain other.entries.items changed) ∧
    (∀ other : SignatureChain,
      ((∃ changed, (attempts tried).extend other = .ok changed) ↔
        WellOrdered ((attempts tried).kinds ++ other.kinds)) ∧
      (∀ changed, (attempts tried).extend other = .ok changed →
        changed.entries.items = (attempts tried).entries.items ++ other.entries.items) ∧
      ∀ failure, (attempts tried).extend other = .error failure →
        (Edit.change (·.extend other)).after (attempts tried) = attempts tried) ∧
    (∀ entries : List ChainEntry,
      (∀ index entry changed, putEntry? (ofEntries entries) index entry = some changed →
        changed = ofEntries (entries.set index entry)) ∧
      ((∀ entry ∈ entries, entry.validate = .ok ()) →
        ((ofEntries entries).validate = .ok () ↔ WellOrdered (ofEntries entries).kinds))) := by
  have next (entry : ChainEntry) :
      attempts (tried ++ [entry]) = (attempts tried).attempt entry := by
    rw [attempts, List.foldl_append]
    rfl
  obtain ⟨entries, grown, ordered, each⟩ := grown_attempts valid
  simp only [next, grown, kinds_ofEntries]
  refine ⟨ordered, fun entry => ⟨?_, fun changed taken => ⟨?_, attempt_of_ok taken⟩,
    fun failure refused => attempt_of_error refused⟩, fun state => ?_, fun noEntries => ?_,
    fun begun => ?_, fun chain other changed => extend_eq_ok_iff,
    fun other => ⟨?_, fun changed ran => ?_, ?_⟩,
    fun others => ⟨fun index entry changed put => ofEntries_of_putEntry put,
      validate_ofEntries_iff⟩⟩
  · simp [append_ofEntries_iff ordered]
  · obtain ⟨-, rfl⟩ := (append_ofEntries_iff ordered).mp taken
    rfl
  · exact ofKinds_eq_iff ordered state
  · obtain rfl : entries = [] := noEntries
    rfl
  · exact lastKey_ofEntries ordered each begun
  · simp [extend_eq_ok_iff, appendsAll_ofEntries_iff ordered, kinds]
  · obtain ⟨-, rfl⟩ := (appendsAll_ofEntries_iff ordered).mp (extend_eq_ok_iff.mp ran)
    rfl
  · intro failure refused
    exact Edit.after_change_of_error (fun chain : SignatureChain => chain.extend other) refused

/-- The entries of a closed chain, tried backwards and then forwards on a new one. -/
theorem chains_grow_in_order_closedChain :
    ∃ chain, closedChain = .ok chain ∧ chain.length = 2 ∧
      WellOrdered (attempts (chain.entries.items.reverse ++ chain.entries.items)).kinds ∧
      ∀ state, (attempts (chain.entries.items.reverse ++ chain.entries.items)).state = state ↔
        state.Describes (attempts (chain.entries.items.reverse ++ chain.entries.items)).kinds := by
  obtain ⟨chain, built, -, two, -⟩ := closedChain_exists
  obtain ⟨standard, valid⟩ := standard_closedChain built
  obtain ⟨-, -, each⟩ := standard.validate_eq_ok_iff.mp valid
  have fine : ∀ entry ∈ chain.entries.items.reverse ++ chain.entries.items,
      entry.validate = .ok () := by
    intro entry member
    apply each entry
    simpa using member
  obtain ⟨ordered, -, states, -⟩ :=
    chains_grow_in_order (chain.entries.items.reverse ++ chain.entries.items) fine
  exact ⟨chain, built, two, ordered, states⟩

end SignatureChain
end SecureBoot
