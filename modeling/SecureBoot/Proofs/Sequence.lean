import SecureBoot.Sequence
import SecureBoot.Proofs.Reading
import SecureBoot.Proofs.Span

/-!
Sequences as runs of bytes. A sequence of lawful fragments is lawful, refreshing one whose checksums
match leaves it alone, and reading creates just the fragments whose bytes it takes: a `Readable`
fragment is created again from its own bytes, and a `Sound` allocation takes no other bytes. A sequence
that `Follows` a blank one differs from it in its items only, and every call keeps that.
-/

namespace SecureBoot

theorem Fragment.length_flatMap_toBytes {α : Type} [Fragment α] [Fragment.Lawful α] (items : List α) :
    (items.flatMap Fragment.toBytes).length = Fragment.totalSize items := by
  induction items with
  | nil => rfl
  | cons first rest ih =>
    rw [List.flatMap_cons, List.length_append, Fragment.Lawful.length_toBytes, ih,
      Fragment.totalSize]

@[simp] theorem Fragment.totalSize_append {α : Type} [Fragment α] (items others : List α) :
    Fragment.totalSize (items ++ others) = Fragment.totalSize items + Fragment.totalSize others := by
  induction items with
  | nil => simp [Fragment.totalSize]
  | cons first rest ih => simp [Fragment.totalSize, ih, Nat.add_assoc]

/-- Fragments of at most one size have at most that size for each of them. -/
theorem Fragment.totalSize_le_mul {α : Type} [Fragment α] {items : List α} {most : Nat}
    (each : ∀ item ∈ items, Fragment.size item ≤ most) :
    Fragment.totalSize items ≤ items.length * most := by
  induction items with
  | nil => exact Nat.zero_le _
  | cons first rest ih =>
    obtain ⟨here, later⟩ := List.forall_mem_cons.mp each
    rw [Fragment.totalSize, List.length_cons, Nat.add_mul, Nat.one_mul, Nat.add_comm]
    exact Nat.add_le_add (ih later) here

/-- A fragment that takes the place of another brings its size in and takes that of the other out. -/
theorem Fragment.totalSize_set_add {α : Type} [Fragment α] {items : List α} {index : Nat} {old : α}
    (there : items[index]? = some old) (item : α) :
    Fragment.totalSize (items.set index item) + Fragment.size old =
      Fragment.totalSize items + Fragment.size item := by
  induction items generalizing index with
  | nil => simp at there
  | cons first rest ih =>
    cases index with
    | zero =>
      obtain rfl : first = old := by simpa using there
      rw [List.set_cons_zero, Fragment.totalSize, Fragment.totalSize]
      omega
    | succ index =>
      have others : Fragment.totalSize (rest.set index item) + Fragment.size old =
          Fragment.totalSize rest + Fragment.size item := ih (by simpa using there)
      rw [List.set_cons_succ, Fragment.totalSize, Fragment.totalSize]
      omega

namespace Sequence

variable {α : Type} {sequence changed : Sequence α} {item : α} {items : List α} {bytes rest : Bytes}
  {offset count rounds : Nat} {stream left : Stream} {answer : Unit}

theorem checkCount_eq_ok_iff :
    sequence.checkCount = .ok answer ↔
      ∀ most, sequence.itemCountLimit = some most → sequence.length ≤ most := by
  rw [checkCount]
  cases sequence.itemCountLimit <;> simp

theorem countReached_iff :
    sequence.countReached = true ↔
      ∃ most, sequence.itemCountLimit = some most ∧ most ≤ sequence.length := by
  rw [countReached]
  cases sequence.itemCountLimit <;> simp

/-- The sequence is a blank one with items in it, each of which is fine. -/
structure Follows (sequence blank : Sequence α) (fine : α → Prop) : Prop where
  layout : sequence = { blank with items := sequence.items }
  items : ∀ item ∈ sequence.items, fine item

theorem Follows.withItems {blank : Sequence α} {fine : α → Prop}
    (follows : sequence.Follows blank fine) (each : ∀ item ∈ items, fine item) :
    { sequence with items := items }.Follows blank fine :=
  ⟨by rw [follows.layout], each⟩

variable [Fragment α]

theorem toBytes_eq (sequence : Sequence α) :
    Composite.toBytes sequence = sequence.items.flatMap Fragment.toBytes :=
  Part.serialize_ofList _ _

instance [Fragment.Lawful α] : Composite.Lawful (Sequence α) where
  parts sequence :=
    Part.lawful_ofList sequence.items fun items => { sequence with items := items }

instance [Fragment.Lawful α] [Allocate α] : Fragment.Lawful (Sequence α) where
  length_toBytes sequence := by
    rw [show Fragment.toBytes sequence = _ from toBytes_eq sequence,
      Fragment.length_flatMap_toBytes]
    rfl
  readBytes_sound := by
    intro sequence offset count bytes read
    obtain ⟨inside, same⟩ := Composite.readBytes_sound read
    rw [Composite.size, show Composite.parts sequence = Part.ofList _ _ from rfl,
      Part.totalSize_ofList] at inside
    exact ⟨inside, same⟩
  readBytes_inside := by
    intro sequence offset count inside copyable
    refine Composite.readBytes_inside ?_ copyable
    rw [Composite.size, show Composite.parts sequence = Part.ofList _ _ from rfl,
      Part.totalSize_ofList]
    exact inside
  writeBytes_same := Composite.writeBytes_same

theorem checkItem_eq_ok_iff :
    sequence.checkItem item = .ok answer ↔
      ∀ most, sequence.itemLimit = some most → Fragment.size item ≤ most := by
  rw [checkItem, checkBound_eq_ok_iff]

theorem checkItems_eq_ok_iff :
    sequence.checkItems items = .ok answer ↔
      ∀ item ∈ items, ∀ most, sequence.itemLimit = some most → Fragment.size item ≤ most := by
  induction items with
  | nil => simp [checkItems]
  | cons first rest ih => simp [checkItems, checkItem_eq_ok_iff, ih]

theorem append_eq_ok_iff :
    sequence.append item = .ok changed ↔
      (∀ most, sequence.itemLimit = some most → Fragment.size item ≤ most) ∧
        (∀ most, sequence.limit = some most → sequence.totalSize + Fragment.size item ≤ most) ∧
          { sequence with items := sequence.items ++ [item] } = changed := by
  simp [append, checkItem_eq_ok_iff]

theorem extend_eq_ok_iff :
    sequence.extend items = .ok changed ↔
      (∀ item ∈ items, ∀ most, sequence.itemLimit = some most → Fragment.size item ≤ most) ∧
        (∀ most, sequence.limit = some most →
          sequence.totalSize + Fragment.totalSize items ≤ most) ∧
          { sequence with items := sequence.items ++ items } = changed := by
  simp [extend, checkItems_eq_ok_iff]

theorem validateItems_eq_ok_iff :
    sequence.validateItems items = .ok answer ↔
      ∀ item ∈ items, Fragment.validate item = .ok () ∧
        ∀ most, sequence.itemLimit = some most → Fragment.size item ≤ most := by
  induction items with
  | nil => simp [validateItems]
  | cons first rest ih => simp [validateItems, checkItem_eq_ok_iff, ih, and_assoc]

/-- The bounds of a sequence hold, and the fragments in it are valid. -/
theorem validate_bounds (valid : sequence.validate = .ok answer) :
    (∀ item ∈ sequence.items, Fragment.validate item = .ok () ∧
        ∀ most, sequence.itemLimit = some most → Fragment.size item ≤ most) ∧
      (∀ most, sequence.limit = some most → sequence.totalSize ≤ most) ∧
        ∀ most, sequence.itemCountLimit = some most → sequence.length ≤ most := by
  simp only [validate, bind_eq_ok_iff, validateItems_eq_ok_iff, checkBound_eq_ok_iff,
    checkCount_eq_ok_iff, exists_unit_iff] at valid
  obtain ⟨each, whole, counted, -⟩ := valid
  exact ⟨each, whole, counted⟩

/-- Refreshing checksums that match already leaves the sequence alone. -/
theorem storeCrcs_same [Fragment.Lawful α] {addresses : List Nat}
    (matching : sequence.checkCrcs addresses = .ok ())
    (stored : storeCrcs addresses sequence = .ok answer changed) : changed = sequence := by
  induction addresses with
  | nil =>
    rw [storeCrcs, Edit.pure_eq_ok_iff] at stored
    exact stored.2.symm
  | cons first rest ih =>
    simp only [checkCrcs, bind_eq_ok_iff, require_eq_ok_iff, exists_unit_iff] at matching
    obtain ⟨crc, computed, actual, held, rfl, others⟩ := matching
    simp only [storeCrcs, Edit.bind_eq_ok_iff, Edit.ask_eq_ok_iff, Edit.change_eq_ok_iff] at stored
    obtain ⟨_, _, ⟨again, rfl⟩, _, between, wrote, stored⟩ := stored
    obtain rfl := Except.ok.inj (computed.symm.trans again)
    simp only [storedCrc, getWord, bind_eq_ok_iff, pure_eq_ok_iff, require_eq_ok_iff] at held
    obtain ⟨-, -, raw, read, rfl⟩ := held
    obtain ⟨inside, same⟩ := Composite.readBytes_sound read
    have four : raw.length = 4 := by
      rw [← same]
      exact Bytes.length_slice (by rw [Composite.length_toBytes]; exact inside)
    rw [setWord, Bytes.ofWord_toWord four] at wrote
    obtain rfl : between = sequence := Composite.writeBytes_same (by rw [four, same]) wrote
    exact ih others stored

/-- Refreshing a valid sequence whose fragments it leaves alone leaves it alone. -/
theorem update_same [Fragment.Lawful α] (valid : sequence.validate = .ok ())
    (each : ∀ item ∈ sequence.items, ∀ other, Fragment.update item = .ok () other → other = item)
    (ran : update sequence = .ok answer changed) : changed = sequence := by
  simp only [update, updateCrc, Edit.bind_eq_ok_iff, Edit.get_eq_ok_iff] at ran
  obtain ⟨_, refreshed, within, _, _, ⟨rfl, rfl⟩, stored⟩ := ran
  obtain ⟨others, ran, rfl⟩ := Edit.within_eq_ok_iff.mp within
  have same : others = sequence.items :=
    Edit.eq_of_forall₂ each (Edit.each_eq_ok_iff.mp ran)
  subst same
  simp only [validate, bind_eq_ok_iff, exists_unit_iff] at valid
  obtain ⟨-, -, -, -, matching⟩ := valid
  exact storeCrcs_same matching stored

/-- From its own bytes, whatever follows them, the fragment is created again. -/
def Readable [Allocate α] (item : α) : Prop :=
  0 < Fragment.size item ∧ ∀ room rest, ∃ blank,
    Edit.Serves (Allocate.allocate room) [] (Fragment.toBytes item ++ rest) (some blank) ∧
      Edit.Takes Fragment.read blank (Fragment.toBytes item) rest (Fragment.size item) item

theorem remaining_eq_zero_iff :
    sequence.remaining = some 0 ↔
      ∃ most, sequence.limit = some most ∧ most ≤ sequence.totalSize := by
  simp [remaining, Nat.sub_eq_zero_iff_le]

theorem length_le_totalSize [Allocate α] (readable : ∀ item ∈ items, Readable item) :
    items.length ≤ Fragment.totalSize items := by
  induction items with
  | nil => simp
  | cons first others ih =>
    obtain ⟨⟨occupied, -⟩, later⟩ := List.forall_mem_cons.mp readable
    have := ih later
    rw [List.length_cons, Fragment.totalSize]
    omega

/-- Reading creates the fragments whose bytes come next and stops where the bytes end. -/
theorem takes_readNew [Allocate α] [Fragment.Lawful α] (enough : items.length < rounds)
    (readable : ∀ item ∈ items, Readable item)
    (each : ∀ item ∈ items, ∀ most, sequence.itemLimit = some most → Fragment.size item ≤ most)
    (whole : ∀ most, sequence.limit = some most →
      sequence.totalSize + Fragment.totalSize items ≤ most)
    (counted : ∀ most, sequence.itemCountLimit = some most →
      sequence.length + items.length ≤ most) :
    Edit.Takes (readNew rounds) sequence (items.flatMap Fragment.toBytes) []
      (Fragment.totalSize items) { sequence with items := sequence.items ++ items } := by
  induction items generalizing sequence rounds with
  | nil =>
    obtain ⟨rounds, rfl⟩ : ∃ more, rounds = more + 1 := ⟨rounds - 1, by simp at enough; omega⟩
    have stops : Edit.Takes (pure 0) sequence [] [] 0 sequence := .pure 0 sequence []
    refine .get_bind fun stream _ => ?_
    simp only [List.flatMap_nil, List.append_nil, Fragment.totalSize]
    by_cases reached : sequence.countReached = true
    · simpa only [if_pos reached] using stops
    · by_cases full : sequence.remaining = some 0
      · simpa only [if_neg reached, if_pos full] using stops
      · simp only [if_neg reached, if_neg full]
        exact .look (.fromStream (.isExhausted []) sequence) stops
  | cons first others ih =>
    obtain ⟨rounds, rfl⟩ : ∃ more, rounds = more + 1 := ⟨rounds - 1, by simp at enough; omega⟩
    obtain ⟨⟨occupied, again⟩, readableLater⟩ := List.forall_mem_cons.mp readable
    obtain ⟨fits, fitLater⟩ := List.forall_mem_cons.mp each
    simp only [Fragment.totalSize, List.length_cons] at whole counted enough
    have reached : ¬sequence.countReached = true := by
      rw [countReached_iff]
      rintro ⟨most, limited, full⟩
      have := counted most limited
      omega
    have full : ¬sequence.remaining = some 0 := by
      rw [remaining_eq_zero_iff]
      rintro ⟨most, limited, full⟩
      have := whole most limited
      omega
    have more : (Fragment.toBytes first ++ others.flatMap Fragment.toBytes ++ []).isEmpty = false := by
      have exact := Fragment.Lawful.length_toBytes first
      rw [List.isEmpty_eq_false_iff, ← List.length_pos_iff, List.length_append, List.length_append]
      omega
    obtain ⟨blank, allocates, reads⟩ :=
      again (roomFor sequence.remaining sequence.itemLimit) (others.flatMap Fragment.toBytes ++ [])
    have grown : sequence.append first =
        .ok { sequence with items := sequence.items ++ [first] } := by
      refine append_eq_ok_iff.mpr ⟨fits, ?_, rfl⟩
      intro most limited
      have := whole most limited
      omega
    have later : Edit.Takes (readNew rounds) { sequence with items := sequence.items ++ [first] }
        (others.flatMap Fragment.toBytes) [] (Fragment.totalSize others)
        { sequence with items := sequence.items ++ [first] ++ others } := by
      refine ih (by omega) readableLater fitLater ?_ ?_
      · intro most limited
        have := whole most limited
        simp only [totalSize, Fragment.totalSize_append, Fragment.totalSize] at this ⊢
        omega
      · intro most limited
        have := counted most limited
        simp only [length, List.length_append, List.length_singleton] at this ⊢
        omega
    have grows : Edit.Takes (Edit.onObject (Edit.change (·.append first))) sequence []
        (others.flatMap Fragment.toBytes ++ []) ()
        { sequence with items := sequence.items ++ [first] } :=
      .onObject (Edit.change_of_ok grown) _
    rw [List.append_assoc, List.singleton_append] at later
    refine .get_bind fun stream _ => ?_
    simp only [if_neg reached, if_neg full, List.flatMap_cons, Fragment.totalSize]
    refine .look (.fromStream (.isExhausted _) sequence) ?_
    rw [more]
    refine .look (.fromStream (by rw [List.append_assoc]; exact allocates) sequence) ?_
    refine .bind (.fromStream (.readNew reads) sequence) ?_
    simp only [if_neg (Nat.ne_of_gt occupied)]
    exact .look grows (.last later (.pure _ _ []))

/-- Once the fragments there are have been read, new ones are. -/
theorem read_of_known [Allocate α]
    (ran : Edit.eachWith Fragment.read (sequence.items, stream) = .ok count (items, left)) :
    read (sequence, stream) =
      (do return count + (← readNew (left.unread.length + 1)) : Edit (Sequence α × Stream) Nat)
        ({ sequence with items := items }, left) := by
  have known : Edit.within (fun pair => (pair.1.items, pair.2))
      (fun pair changed => ({ pair.1 with items := changed.1 }, changed.2))
      (Edit.eachWith Fragment.read) (sequence, stream) =
        .ok count ({ sequence with items := items }, left) := by
    simp only [Edit.within, ran]
  rw [read, Edit.bind_of_ok known, Edit.bind_of_ok (Edit.get_eq_ok_iff.mpr ⟨rfl, rfl⟩)]

/-- If one of them fails to be read, no new ones are. -/
theorem read_of_failed [Allocate α] {failure : Failure}
    (failed : Edit.eachWith Fragment.read (sequence.items, stream) = .error failure (items, left)) :
    read (sequence, stream) = .error failure ({ sequence with items := items }, left) := by
  have known : Edit.within (fun pair => (pair.1.items, pair.2))
      (fun pair changed => ({ pair.1 with items := changed.1 }, changed.2))
      (Edit.eachWith Fragment.read) (sequence, stream) =
        .error failure ({ sequence with items := items }, left) := by
    simp only [Edit.within, failed]
  rw [read, Edit.bind_of_error known]

/-- An empty sequence is read as it was written. -/
theorem takes_read [Allocate α] [Fragment.Lawful α] (blank : sequence.items = [])
    (readable : ∀ item ∈ items, Readable item)
    (each : ∀ item ∈ items, ∀ most, sequence.itemLimit = some most → Fragment.size item ≤ most)
    (whole : ∀ most, sequence.limit = some most → Fragment.totalSize items ≤ most)
    (counted : ∀ most, sequence.itemCountLimit = some most → items.length ≤ most) :
    Edit.Takes read sequence (items.flatMap Fragment.toBytes) [] (Fragment.totalSize items)
      { sequence with items := items } := by
  have known : Edit.Takes (Edit.within
      (fun pair => (pair.1.items, pair.2))
      (fun pair changed => ({ pair.1 with items := changed.1 }, changed.2))
      (Edit.eachWith Fragment.read)) sequence [] (items.flatMap Fragment.toBytes ++ []) 0
        sequence := by
    intro stream steady _
    refine ⟨stream, Edit.within_eq_ok_iff.mpr ⟨([], stream), ?_, ?_⟩, .refl steady⟩
    · show Edit.eachWith Fragment.read (sequence.items, stream) = _
      rw [blank, Edit.eachWith]
    · show ({ sequence with items := [] }, stream) = (sequence, stream)
      rw [← blank]
  have enough (stream : Stream) (held : stream.unread = items.flatMap Fragment.toBytes ++ []) :
      items.length < stream.unread.length + 1 := by
    rw [held, List.append_nil, Fragment.length_flatMap_toBytes]
    exact Nat.lt_succ_of_le (length_le_totalSize readable)
  refine .look known (.get_bind fun stream held => ?_)
  have news : Edit.Takes (readNew (stream.unread.length + 1)) sequence
      (items.flatMap Fragment.toBytes) [] (Fragment.totalSize items)
      { sequence with items := items } := by
    have created : Edit.Takes (readNew (stream.unread.length + 1)) sequence
        (items.flatMap Fragment.toBytes) [] (Fragment.totalSize items)
        { sequence with items := sequence.items ++ items } :=
      takes_readNew (enough stream held) readable each
        (by simpa [totalSize, blank, Fragment.totalSize] using whole)
        (by simpa [length, blank] using counted)
    rwa [blank, List.nil_append] at created
  have total : Edit.Takes (pure (0 + Fragment.totalSize items)) { sequence with items := items } []
      [] (Fragment.totalSize items) { sequence with items := items } := by
    rw [Nat.zero_add]
    exact .pure _ _ []
  exact .last news total

/-- Reading a new fragment takes just the bytes the fragment has in the end, and makes a good one. -/
def Sound [Allocate α] (good : α → Prop) : Prop :=
  ∀ {room : Option Nat} {stream between : Stream} {allocated : Option α}, stream.Steady →
    Allocate.allocate room stream = .ok allocated between →
      stream.Advances between [] ∧
        ∀ {blank read : α} {count : Nat} {left : Stream}, allocated = some blank →
          Fragment.read (blank, between) = .ok count (read, left) →
            between.Advances left (Fragment.toBytes read) ∧
              count = (Fragment.toBytes read).length ∧ good read

theorem readNew_sound [Allocate α] {good : α → Prop} (sound : Sound good) (steady : stream.Steady)
    (ran : readNew rounds (sequence, stream) = .ok count (changed, left)) :
    ∃ items, changed = { sequence with items := sequence.items ++ items } ∧
      stream.Advances left (items.flatMap Fragment.toBytes) ∧
      count = (items.flatMap Fragment.toBytes).length ∧
      ∀ item ∈ items, good item ∧ Fragment.toBytes item ≠ [] := by
  induction rounds generalizing sequence stream count with
  | zero =>
    simp only [readNew, Edit.pure_eq_ok_iff, Prod.mk.injEq] at ran
    obtain ⟨rfl, rfl, rfl⟩ := ran
    exact ⟨[], by rw [List.append_nil], .refl steady, rfl, by simp⟩
  | succ rounds ih =>
    -- Every way out of a round before a fragment is appended takes nothing.
    have stopped {other : Stream} (advances : stream.Advances other [])
        (out : (pure 0 : Edit (Sequence α × Stream) Nat) (sequence, other) =
          .ok count (changed, left)) :
        ∃ items, changed = { sequence with items := sequence.items ++ items } ∧
          stream.Advances left (items.flatMap Fragment.toBytes) ∧
          count = (items.flatMap Fragment.toBytes).length ∧
      ∀ item ∈ items, good item ∧ Fragment.toBytes item ≠ [] := by
      simp only [Edit.pure_eq_ok_iff, Prod.mk.injEq] at out
      obtain ⟨rfl, rfl, rfl⟩ := out
      exact ⟨[], by rw [List.append_nil], advances, rfl, by simp⟩
    simp only [readNew, Edit.bind_eq_ok_iff, Edit.get_eq_ok_iff] at ran
    obtain ⟨_, _, ⟨rfl, rfl⟩, ran⟩ := ran
    by_cases reached : sequence.countReached = true
    · rw [if_pos reached] at ran
      exact stopped (.refl steady) ran
    rw [if_neg reached] at ran
    by_cases full : sequence.remaining = some 0
    · rw [if_pos full] at ran
      exact stopped (.refl steady) ran
    rw [if_neg full] at ran
    simp only [Edit.bind_eq_ok_iff, Prod.exists, Edit.fromStream_eq_ok_iff] at ran
    obtain ⟨empty, _, looked, ⟨ranLook, rfl⟩, ran⟩ := ran
    obtain ⟨-, looks⟩ := Edit.isExhausted_sound steady ranLook
    cases empty with
    | true => exact stopped looks ran
    | false =>
      simp only [Bool.false_eq_true, if_false, Edit.bind_eq_ok_iff, Prod.exists,
        Edit.fromStream_eq_ok_iff] at ran
      obtain ⟨allocated, _, chosen, ⟨ranAllocate, rfl⟩, ran⟩ := ran
      obtain ⟨chooses, reads⟩ := sound looks.steady ranAllocate
      cases allocated with
      | none => exact stopped (looks.trans chooses) ran
      | some blank =>
        simp only [Edit.bind_eq_ok_iff, Prod.exists, Edit.fromStream_eq_ok_iff,
          Edit.readNew_eq_ok_iff] at ran
        obtain ⟨first, item, _, between, ⟨ranRead, rfl⟩, ran⟩ := ran
        obtain ⟨advances, counted, fine⟩ := reads rfl ranRead
        have reached := (looks.trans chooses).trans advances
        by_cases nothing : first = 0
        · rw [if_pos nothing] at ran
          rw [counted, List.length_eq_zero_iff] at nothing
          rw [nothing] at reached
          exact stopped reached ran
        rw [if_neg nothing] at ran
        simp only [Edit.bind_eq_ok_iff, Prod.exists, Edit.onObject_eq_ok_iff,
          Edit.change_eq_ok_iff, append_eq_ok_iff, Edit.pure_eq_ok_iff, Prod.mk.injEq] at ran
        obtain ⟨_, _, _, ⟨⟨-, -, rfl⟩, rfl⟩, more, _, _, ranMore, rfl, rfl, rfl⟩ := ran
        obtain ⟨items, rfl, further, countedMore, others⟩ := ih advances.steady ranMore
        refine ⟨item :: items, ?_, ?_, ?_, List.forall_mem_cons.mpr ⟨⟨fine, ?_⟩, others⟩⟩
        · simp
        · rw [List.flatMap_cons]
          exact reached.trans further
        · rw [List.flatMap_cons, List.length_append, counted, countedMore]
        · rw [← List.length_pos_iff, ← counted]
          exact Nat.pos_of_ne_zero nothing

theorem read_sound [Allocate α] {good : α → Prop} (sound : Sound good) (blank : sequence.items = [])
    (steady : stream.Steady) (ran : read (sequence, stream) = .ok count (changed, left)) :
    ∃ items, changed = { sequence with items := items } ∧
      stream.Advances left (items.flatMap Fragment.toBytes) ∧
      count = (items.flatMap Fragment.toBytes).length ∧
      ∀ item ∈ items, good item ∧ Fragment.toBytes item ≠ [] := by
  simp only [read, Edit.bind_eq_ok_iff, Edit.get_eq_ok_iff, Edit.pure_eq_ok_iff] at ran
  obtain ⟨known, _, within, _, _, ⟨rfl, rfl⟩, new, _, ran, rfl, rfl⟩ := ran
  obtain ⟨_, known, rfl⟩ := Edit.within_eq_ok_iff.mp within
  rw [blank] at known
  obtain ⟨rfl, rfl⟩ : 0 = _ ∧ ([], stream) = _ := by simpa [Edit.eachWith] using known
  obtain ⟨items, rfl, advances, counted, fine⟩ := readNew_sound sound steady ran
  exact ⟨items, rfl, advances, by rw [Nat.zero_add, counted], fine⟩

section Following

variable {blank : Sequence α} {fine : α → Prop}

theorem setRaw_eq (sequence : Sequence α) (bytes : Bytes) (offset : Nat) :
    sequence.setRaw bytes offset = Part.writeSpan sequence
      (Part.ofList (fun items => { sequence with items := items }) sequence.items) bytes offset :=
  rfl

theorem length_setRaw (ran : sequence.setRaw bytes offset = .ok changed) :
    changed.length = sequence.length := by
  have anything : Fragment.WriteKeeps fun _ : α => True := fun _ _ _ _ _ _ => trivial
  rw [setRaw_eq] at ran
  exact Part.writeSpan_leaves (·.length = sequence.length) rfl
    (Part.leaves_ofList anything (fun _ _ => trivial) fun _ same _ => same) ran

namespace Follows

theorem append (follows : sequence.Follows blank fine) (here : fine item)
    (ran : sequence.append item = .ok changed) : changed.Follows blank fine := by
  obtain ⟨-, -, rfl⟩ := append_eq_ok_iff.mp ran
  exact follows.withItems
    (List.forall_mem_append.mpr ⟨follows.items, List.forall_mem_singleton.mpr here⟩)

theorem setRaw (follows : sequence.Follows blank fine) (writes : Fragment.WriteKeeps fine)
    (ran : sequence.setRaw bytes offset = .ok changed) : changed.Follows blank fine := by
  rw [setRaw_eq] at ran
  exact Part.writeSpan_leaves (Follows · blank fine) follows
    (Part.leaves_ofList writes follows.items fun _ _ each => follows.withItems each) ran

theorem keeps_storeCrcs (writes : Fragment.WriteKeeps fine) (addresses : List Nat) :
    Edit.Keeps (Follows · blank fine) (storeCrcs addresses) := by
  induction addresses with
  | nil => exact .pure ()
  | cons address rest ih =>
    refine .bind (.ask _) fun crc => .bind (.change fun _ _ follows ran => ?_) fun _ => ih
    exact follows.setRaw writes ran

theorem keeps_update (writes : Fragment.WriteKeeps fine)
    (updates : Edit.Keeps fine Fragment.update) :
    Edit.Keeps (Follows · blank fine) update := by
  refine .bind ?_ fun _ => .bind .get fun sequence => keeps_storeCrcs writes _
  exact updates.each.within (fun _ follows => follows.items) fun _ _ follows each =>
    follows.withItems each

variable [Allocate α]

theorem keeps_readNew (reads : Edit.Keeps (Edit.First fine) Fragment.read)
    (allocates : ∀ room stream allocated left, Allocate.allocate room stream = .ok allocated left →
      ∀ item, allocated = some item → fine item) (rounds : Nat) :
    Edit.Keeps (Edit.First (Follows · blank fine)) (readNew rounds) := by
  induction rounds with
  | zero => exact .pure 0
  | succ rounds ih =>
    unfold readNew
    refine .bind .get fun (sequence, _) => .ite (.pure 0) (.ite (.pure 0) ?_)
    refine .bind (.fromStream _) fun exhausted => .ite (.pure 0) ?_
    refine .bind_fromStream _ (allocates _) fun allocated made => ?_
    cases allocated with
    | none => exact .pure 0
    | some item =>
      refine .bind_readNew reads (made item rfl) fun count read kept => .ite (.pure 0) ?_
      refine .bind (Edit.Keeps.onObject (.change fun _ _ follows ran => ?_)) fun _ =>
        .bind ih fun more => .pure (count + more)
      exact follows.append kept ran

/-- Reading a sequence keeps what reading an item keeps, if the items it creates are fine. -/
theorem keeps_read (reads : Edit.Keeps (Edit.First fine) Fragment.read)
    (allocates : ∀ room stream allocated left, Allocate.allocate room stream = .ok allocated left →
      ∀ item, allocated = some item → fine item) :
    Edit.Keeps (Edit.First (Follows · blank fine)) read := by
  refine .bind ?_ fun known => .bind .get fun (_, stream) =>
    .bind (keeps_readNew reads allocates _) fun new => .pure (known + new)
  exact reads.eachWith.within (fun _ follows => follows.items) fun _ _ follows each =>
    follows.withItems each

end Follows

end Following

theorem readNew_of_ended [Allocate α] (rounds : Nat) (steady : stream.Steady)
    (ended : stream.unread = []) :
    ∃ left, readNew rounds (sequence, stream) = .ok 0 (sequence, left) := by
  cases rounds with
  | zero => exact ⟨stream, rfl⟩
  | succ rounds =>
    obtain ⟨left, found, -⟩ := Stream.isExhausted_steady steady
    rw [ended, List.isEmpty_nil] at found
    simp only [readNew, Edit.bind_eq_ok_iff, Edit.get_eq_ok_iff]
    by_cases reached : sequence.countReached = true
    · exact ⟨stream, _, _, ⟨rfl, rfl⟩, by simp only [reached, if_true]; rfl⟩
    by_cases full : sequence.remaining = some 0
    · exact ⟨stream, _, _, ⟨rfl, rfl⟩, by simp only [reached, full, if_true]; rfl⟩
    refine ⟨left, _, _, ⟨rfl, rfl⟩, ?_⟩
    rw [if_neg reached, if_neg full, Edit.bind_eq_ok_iff]
    exact ⟨true, (sequence, left), Edit.fromStream_eq_ok_iff.mpr ⟨found, rfl⟩, rfl⟩

/-- An empty sequence takes nothing from a stream that is at its end. -/
theorem read_of_ended [Allocate α] (blank : sequence.items = []) (steady : stream.Steady)
    (ended : stream.unread = []) : ∃ left, read (sequence, stream) = .ok 0 (sequence, left) := by
  have known : Edit.eachWith Fragment.read (sequence.items, stream) = .ok 0 ([], stream) := by
    rw [blank, Edit.eachWith]
  obtain ⟨left, created⟩ :
      ∃ left, readNew (stream.unread.length + 1) (sequence, stream) = .ok 0 (sequence, left) :=
    readNew_of_ended _ steady ended
  refine ⟨left, ?_⟩
  rw [read_of_known known, ← blank, Edit.bind_of_ok created]
  rfl

end Sequence
end SecureBoot
