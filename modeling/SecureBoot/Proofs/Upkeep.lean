import SecureBoot.Proofs.Entry

/-!
The upkeep of layouts, from keys to chain entries. What is `Standard` stays so whatever is done to it:
however a call ends, and wherever bytes are written, the object keeps the registrations it was made
with and the kind and format it was made for. The property that a call keeps names both, since an
entry is laid out for the kind of its data, and a root key for the format of root entries.
-/

namespace SecureBoot

namespace PublicKey

variable {key changed : PublicKey} {format : KeyFormat} {word : UInt32} {offset : Nat}
  {stream : Stream}

/-- The key has the layout of the given format. -/
def Laid (format : KeyFormat) (key : PublicKey) : Prop :=
  key.Standard ∧ key.format = format

/-- What keeps the layout of every buffer keeps the layout of a key. -/
theorem Laid.rewrite {next : Buffer → Except Failure Buffer} (laid : key.Laid format)
    (keeps : ∀ blank buffer changed, buffer.Follows blank → next buffer = .ok changed →
      changed.Follows blank)
    (ran : (do return { key with buffer := ← next key.buffer } : Except Failure PublicKey) =
      .ok changed) : changed.Laid format := by
  simp only [bind_eq_ok_iff, pure_eq_ok_iff] at ran
  obtain ⟨buffer, rewritten, rfl⟩ := ran
  exact ⟨keeps _ _ _ laid.1 rewritten, laid.2⟩

theorem Standard.setWord (standard : key.Standard) (ran : key.setWord word offset = .ok changed) :
    changed.Standard :=
  (Laid.rewrite ⟨standard, rfl⟩ (fun _ _ _ follows stored => follows.setWord stored) ran).1

theorem Laid.writeKeeps : Fragment.WriteKeeps (Laid format) :=
  fun _ _ _ _ laid ran => laid.rewrite (fun _ _ _ follows written => follows.setRaw written) ran

theorem Standard.writeKeeps : Fragment.WriteKeeps Standard :=
  fun _ _ _ _ standard ran => (Laid.writeKeeps ⟨standard, rfl⟩ ran).1

/-- Writing fills no slot and clears none. -/
theorem writeKeeps_isEmpty (blank : Bool) : Fragment.WriteKeeps (isEmpty · = blank) := by
  rintro key changed bytes offset rfl ran
  simp only [Fragment.writeBytes, bind_eq_ok_iff, pure_eq_ok_iff] at ran
  obtain ⟨buffer, written, rfl⟩ := ran
  have same : buffer.bytes.length = key.buffer.bytes.length := Buffer.size_setRaw written
  rw [Bool.eq_iff_iff, isEmpty, isEmpty, Buffer.isEmpty, Buffer.isEmpty,
    List.isEmpty_iff_length_eq_zero, List.isEmpty_iff_length_eq_zero, same]

theorem Laid.keeps_readAnnounced (header : Bytes) :
    Edit.Keeps (Edit.First (Laid format)) (readAnnounced format header) := by
  refine .bind (.ask _) fun total => .bind (.ask _) fun _ => .bind (.fromStream _) fun bytes => ?_
  refine .bind (Edit.Keeps.onObject (.change fun key _ laid ran => ?_)) fun _ =>
    .bind (Edit.Keeps.onObject (.ask _)) fun _ => .pure total
  exact laid.rewrite (fun _ _ _ follows grown => follows.append grown) ran

theorem Laid.keeps_read :
    Edit.Keeps (Edit.First (Laid format)) (Fragment.read : Edit (PublicKey × Stream) Nat) := by
  refine .bind_of .get fun object pair between laid ran kept => ?_
  obtain ⟨rfl, rfl⟩ := Edit.get_eq_ok_iff.mp ran
  obtain ⟨key, stream⟩ := object
  have announced (header : Bytes) :
      Edit.Keeps (Edit.First (Laid format)) (readAnnounced key.format header) := by
    rw [show key.format = format from laid.2]
    exact Laid.keeps_readAnnounced header
  refine Edit.Keeps.ite (.pure 0) (.bind (.fromStream _) fun header => ?_) _ kept
  exact .ite (.pure 0) (.ite (.pure 0) (.bind (.ask _) fun _ => announced header))

theorem Standard.keeps_read :
    Edit.Keeps (Edit.First Standard) (Fragment.read : Edit (PublicKey × Stream) Nat) := by
  rintro ⟨key, stream⟩ standard
  have laid : Edit.First (Laid key.format) (key, stream) := ⟨standard, rfl⟩
  exact (Laid.keeps_read _ laid).1

/-- There is nothing to refresh in a key. -/
theorem Standard.maintained : Fragment.Maintains Standard :=
  ⟨Standard.writeKeeps, Standard.keeps_read, .pure ()⟩

/-- The key that a sequence creates for what comes next is an empty one. -/
theorem standard_of_allocate (room : Option Nat) (stream : Stream) (allocated : Option PublicKey)
    (left : Stream) (ran : Allocate.allocate room stream = .ok allocated left) (key : PublicKey)
    (chosen : allocated = some key) : key.Standard := by
  simp only [Allocate.allocate, Edit.bind_eq_ok_iff] at ran
  obtain ⟨head, between, -, ran⟩ := ran
  by_cases short : head.length < 4
  · rw [if_pos short, Edit.pure_eq_ok_iff] at ran
    cases ran.1.trans chosen
  · rw [if_neg short, Edit.pure_eq_ok_iff] at ran
    obtain ⟨format, -, rfl⟩ := Option.map_eq_some_iff.mp (ran.1.trans chosen)
    exact standard_empty format

/-- An empty key takes nothing from a stream that is at its end. -/
theorem read_of_ended (blank : key.isEmpty = true) (steady : stream.Steady)
    (ended : stream.unread = []) : ∃ left, read (key, stream) = .ok 0 (key, left) := by
  obtain ⟨left, peeked, -⟩ := Stream.peek_steady Size.publicKeyHeader steady
  rw [ended, List.take_nil] at peeked
  refine ⟨left, ?_⟩
  simp only [read, Edit.bind_eq_ok_iff, Edit.get_eq_ok_iff]
  refine ⟨_, _, ⟨rfl, rfl⟩, ?_⟩
  simp only [blank, Bool.not_true, Bool.false_eq_true, if_false, Edit.bind_eq_ok_iff, Prod.exists,
    Edit.fromStream_eq_ok_iff]
  exact ⟨[], key, left, ⟨peeked, rfl⟩, rfl⟩

end PublicKey

namespace EntryData

variable {data : EntryData} {kind : EntryKind} {stream : Stream} {reserved : Buffer}

/-- The data has the layout of the given kind. -/
def Laid (kind : EntryKind) (data : EntryData) : Prop :=
  data.Standard ∧ data.kind = kind

theorem Standard.keys_follow {keys : Sequence PublicKey}
    (standard : (multiRoot reserved keys).Standard) :
    keys.Follows keySlots PublicKey.Standard :=
  ⟨standard.2.2.1, standard.2.1⟩

theorem Standard.keys (standard : data.Standard) : ∀ key ∈ data.keys, key.Standard := by
  cases data with
  | root reserved key => exact List.forall_mem_singleton.mpr standard.2.1
  | multiRoot reserved keys => exact standard.2.1
  | publicKey key => exact List.forall_mem_singleton.mpr standard
  | block0 => exact fun _ => nofun

theorem standard_empty (kind : EntryKind) (format : KeyFormat) : (empty kind format).Standard := by
  have reserved : reservedBlock.Follows reservedBlock := .self _ fun _ _ => Nat.zero_le _
  cases kind with
  | root => exact ⟨reserved, PublicKey.standard_empty _, rfl, nofun⟩
  | multiRoot => exact ⟨reserved, nofun, rfl, nofun⟩
  | publicKey => exact PublicKey.standard_empty format
  | block0 => trivial

/-- Writing changes no size, so a reserved block that had to be full stays so. -/
theorem Laid.writeKeeps : Fragment.WriteKeeps (Laid kind) := by
  rintro data changed bytes offset ⟨standard, rfl⟩ ran
  refine Part.writeSpan_leaves (Laid data.kind) ⟨standard, rfl⟩ ?_ ran
  have block (reserved : Buffer) := (Buffer.Follows.writeKeeps reservedBlock).and
    (Buffer.writeKeeps_size reserved.size)
  cases data with
  | root reserved key =>
    obtain ⟨follows, standardKey, format, whole⟩ := standard
    have keyed : Fragment.WriteKeeps fun other : PublicKey =>
        other.Laid .singleRoot ∧ other.isEmpty = key.isEmpty :=
      PublicKey.Laid.writeKeeps.and (PublicKey.writeKeeps_isEmpty key.isEmpty)
    refine List.forall_mem_cons.mpr ⟨Part.leaves_of (block reserved) ⟨follows, rfl⟩
      fun other kept => ?_, List.forall_mem_singleton.mpr (Part.leaves_of keyed
        ⟨⟨standardKey, format⟩, rfl⟩ fun other kept => ?_)⟩
    · exact ⟨⟨kept.1, standardKey, format, fun filled => kept.2.trans (whole filled)⟩, rfl⟩
    · exact ⟨⟨follows, kept.1.1, kept.1.2, fun filled => whole (kept.2.symm.trans filled)⟩, rfl⟩
  | multiRoot reserved keys =>
    have listed := standard.keys_follow
    obtain ⟨follows, -, -, whole⟩ := standard
    have keyed : Fragment.WriteKeeps fun other : Sequence PublicKey =>
        other.Follows keySlots PublicKey.Standard ∧ other.length = keys.length :=
      fun _ _ _ _ held ran => ⟨held.1.setRaw PublicKey.Standard.writeKeeps ran,
        (Sequence.length_setRaw ran).trans held.2⟩
    refine List.forall_mem_cons.mpr ⟨Part.leaves_of (block reserved) ⟨follows, rfl⟩
      fun other kept => ?_, List.forall_mem_singleton.mpr (Part.leaves_of keyed ⟨listed, rfl⟩
        fun other kept => ?_)⟩
    · exact ⟨⟨kept.1, listed.items, listed.layout, fun filled => kept.2.trans (whole filled)⟩, rfl⟩
    · have same : other.isEmpty = keys.isEmpty := by
        rw [Sequence.isEmpty, Sequence.isEmpty, Bool.eq_iff_iff, List.isEmpty_iff_length_eq_zero,
          List.isEmpty_iff_length_eq_zero]
        exact Eq.congr_left kept.2
      exact ⟨⟨follows, kept.1.items, kept.1.layout, fun filled => whole (same ▸ filled)⟩, rfl⟩
  | publicKey key =>
    exact List.forall_mem_singleton.mpr
      (Part.leaves_of PublicKey.Standard.writeKeeps standard fun _ kept => ⟨kept, rfl⟩)
  | block0 => exact List.forall_mem_nil _

/-- Reading two components leaves the second alone if the first cannot be read. -/
theorem after_readBoth {α β : Type} [Fragment α] [Fragment β] (build : α → β → EntryData) (first : α)
    (second : β) (data : EntryData) (stream : Stream) :
    ∃ one two, ((readBoth build first second).after (data, stream)).1 = build one two ∧
      one = (Edit.after Fragment.read (first, stream)).1 ∧
      (two = second ∨ ∃ count left, Fragment.read (first, stream) = .ok count (one, left) ∧
        two = (Edit.after Fragment.read (second, left)).1) := by
  cases ran : Fragment.read (first, stream) with
  | error failure pair =>
    exact ⟨pair.1, second, by simp only [Edit.after, readBoth, ran],
      by simp only [Edit.after, ran], .inl rfl⟩
  | ok count pair =>
    obtain ⟨one, left⟩ := pair
    refine ⟨one, (Edit.after Fragment.read (second, left)).1, ?_, by simp only [Edit.after, ran],
      .inr ⟨count, left, rfl, rfl⟩⟩
    cases ranOn : Fragment.read (second, left) <;> simp only [Edit.after, readBoth, ran, ranOn]

/-- What stands behind the reserved block is there only if that block is full, however far the two
could be read: a block that ends short leaves nothing in the stream. -/
theorem reserved_after_read {β : Type} [Fragment β] (blank : β → Prop) {first : Buffer}
    {second later : β} (follows : reserved.Follows reservedBlock) (steady : stream.Steady)
    (whole : ¬blank second → reserved.size = Size.rootReserved)
    (stays : ∀ left : Stream, left.Steady → left.unread = [] → blank second →
      blank (Edit.after Fragment.read (second, left)).1)
    (one : first = (Edit.after Fragment.read (reserved, stream)).1)
    (two : later = second ∨ ∃ count left, Fragment.read (reserved, stream) = .ok count (first, left) ∧
      later = (Edit.after Fragment.read (second, left)).1) :
    first.Follows reservedBlock ∧ (¬blank later → first.size = Size.rootReserved) := by
  have followsFirst : first.Follows reservedBlock := one ▸ Buffer.Follows.keeps_read _ follows
  have atMost : first.size ≤ Size.rootReserved := followsFirst.bounded _ rfl
  have grows : reserved.size ≤ first.size := one ▸ Buffer.size_le_after_read reserved stream
  have full (there : ¬blank second) : first.size = Size.rootReserved :=
    Nat.le_antisymm atMost (whole there ▸ grows)
  refine ⟨followsFirst, fun there => ?_⟩
  rcases two with rfl | ⟨count, left, ran, rfl⟩
  · exact full there
  by_cases empty : blank second
  · obtain ⟨taken, advances, -, -, -, ended⟩ := Buffer.read_sound follows steady ran
    rcases ended with ⟨complete, -⟩ | nothing
    · exact Nat.le_antisymm atMost (Buffer.isComplete_iff.mp complete _ followsFirst.limit)
    · exact absurd (stays left advances.steady nothing empty) there
  · exact full empty

/-- Data that is read from bytes at hand keeps its layout, however far it could be read. -/
theorem Standard.after_read (standard : data.Standard) (steady : stream.Steady) :
    (Edit.after Fragment.read (data, stream)).1.Laid data.kind := by
  rw [show (Fragment.read : Edit (EntryData × Stream) Nat) = read from rfl]
  cases data with
  | root reserved key =>
    obtain ⟨follows, standardKey, format, whole⟩ := standard
    obtain ⟨first, later, same, one, two⟩ :=
      after_readBoth root reserved key (root reserved key) stream
    rw [show Edit.after read (root reserved key, stream) =
      (readBoth root reserved key).after (root reserved key, stream) from rfl, same]
    obtain ⟨followsFirst, full⟩ := reserved_after_read (fun key : PublicKey =>
      key.isEmpty = true) follows steady (fun filled => whole (by simpa using filled))
      (fun left steady ended blank => by
        obtain ⟨other, ran⟩ := PublicKey.read_of_ended blank steady ended
        have ran : Fragment.read (key, left) = .ok 0 (key, other) := ran
        rwa [Edit.after, ran]) one two
    have laid : later.Laid .singleRoot := by
      have begun : key.Laid .singleRoot := ⟨standardKey, format⟩
      rcases two with rfl | ⟨count, left, -, rfl⟩
      · exact begun
      · exact PublicKey.Laid.keeps_read (key, left) begun
    exact ⟨⟨followsFirst, laid.1, laid.2, fun filled => full (by simpa using filled)⟩, rfl⟩
  | multiRoot reserved keys =>
    have listed := standard.keys_follow
    obtain ⟨follows, -, -, whole⟩ := standard
    obtain ⟨first, later, same, one, two⟩ :=
      after_readBoth multiRoot reserved keys (multiRoot reserved keys) stream
    rw [show Edit.after read (multiRoot reserved keys, stream) =
      (readBoth multiRoot reserved keys).after (multiRoot reserved keys, stream) from rfl, same]
    obtain ⟨followsFirst, full⟩ := reserved_after_read (fun keys : Sequence PublicKey =>
      keys.items = []) follows steady (fun filled => whole (by simpa [Sequence.isEmpty] using filled))
      (fun left steady ended blank => by
        obtain ⟨other, ran⟩ := Sequence.read_of_ended blank steady ended
        have ran : Fragment.read (keys, left) = .ok 0 (keys, other) := ran
        rwa [Edit.after, ran]) one two
    have listedToo : later.Follows keySlots PublicKey.Standard := by
      rcases two with rfl | ⟨count, left, -, rfl⟩
      · exact listed
      · exact Sequence.Follows.keeps_read PublicKey.Standard.keeps_read PublicKey.standard_of_allocate
          (keys, left) listed
    exact ⟨⟨followsFirst, listedToo.items, listedToo.layout, fun filled =>
      full (by simpa [Sequence.isEmpty] using filled)⟩, rfl⟩
  | publicKey key =>
    have kept := PublicKey.Standard.keeps_read (key, stream) standard
    cases ran : Fragment.read (key, stream) <;>
      (simp only [Edit.after, ran] at kept
       simp only [Edit.after, read, ran]
       exact ⟨kept, rfl⟩)
  | block0 => exact ⟨trivial, rfl⟩

end EntryData

namespace ChainEntry

variable {entry : ChainEntry} {kind : EntryKind} {stream left : Stream}

/-- The entry has the layout of the given kind. -/
structure Laid (kind : EntryKind) (entry : ChainEntry) : Prop where
  header : entry.header.Follows (empty kind .singleRoot).header
  data : entry.data.Laid kind
  slot : entry.slot.Follows (Buffer.empty none)

theorem laid_iff : entry.Laid kind ↔ entry.Standard ∧ entry.kind = kind := by
  constructor
  · rintro ⟨header, ⟨data, rfl⟩, slot⟩
    rw [empty, header_ofData (EntryData.kind_empty entry.data.kind .singleRoot)] at header
    exact ⟨⟨header, data, slot⟩, rfl⟩
  · rintro ⟨⟨header, data, slot⟩, rfl⟩
    refine ⟨?_, ⟨data, rfl⟩, slot⟩
    rwa [empty, header_ofData (EntryData.kind_empty entry.kind .singleRoot)]

theorem Laid.standard (laid : entry.Laid kind) : entry.Standard :=
  (laid_iff.mp laid).1

theorem Standard.laid (standard : entry.Standard) : entry.Laid entry.kind :=
  laid_iff.mpr ⟨standard, rfl⟩

theorem standard_empty (kind : EntryKind) (format : KeyFormat) : (empty kind format).Standard :=
  ⟨.self _ fun _ _ => Nat.zero_le _, EntryData.standard_empty kind format,
    .self _ fun _ _ => Nat.zero_le _⟩

/-- What keeps the layout of every kind keeps the layout of every entry. -/
theorem Standard.keeps {α : Type} {call : Edit ChainEntry α}
    (keeps : ∀ kind, Edit.Keeps (Laid kind) call) : Edit.Keeps Standard call :=
  fun entry standard => (keeps entry.kind entry standard.laid).standard

theorem Laid.keeps_onHeader {α : Type} {call : Edit Buffer α}
    (keeps : ∀ blank, Edit.Keeps (Buffer.Follows · blank) call) :
    Edit.Keeps (Laid kind) (onHeader call) :=
  (keeps _).within (fun _ laid => laid.header) fun _ _ laid header => { laid with header := header }

theorem Laid.keeps_update : Edit.Keeps (Laid kind) update := by
  refine .bind .get fun entry => .bind (.ask _) fun total => .bind (.ask _) fun data =>
    .bind (.ask _) fun signature => Laid.keeps_onHeader fun blank => ?_
  refine .bind (Buffer.Follows.keeps_setWord _ _) fun _ => ?_
  refine .bind (Buffer.Follows.keeps_setWord _ _) fun _ => ?_
  exact .bind (Buffer.Follows.keeps_setWord _ _) fun _ => Buffer.Follows.keeps_updateMagic

theorem Standard.keeps_update :
    Edit.Keeps Standard (Fragment.update : Edit ChainEntry Unit) :=
  Standard.keeps fun _ => Laid.keeps_update

theorem Laid.keeps_fillSlot (bytes : Bytes) : Edit.Keeps (Laid kind) (fillSlot bytes) := by
  have slot : { Buffer.empty none with bytes := bytes }.Follows (Buffer.empty none) :=
    ⟨rfl, fun _ bounded => nomatch bounded⟩
  exact .bind (.modify fun _ laid => { laid with slot := slot }) fun _ => Laid.keeps_update

theorem Standard.keeps_setSignature (signature : Signature) :
    Edit.Keeps Standard (ChainEntry.setSignature signature) :=
  Standard.keeps fun _ => .bind (.ask _) fun _ => Laid.keeps_fillSlot signature.toBytes

/-- The data block is read from a stream of its own, which cannot fail. -/
theorem Laid.keeps_readData (bytes : Bytes) :
    Edit.Keeps (Laid kind) (Edit.readInside ChainEntry.data
      (fun entry data => { entry with data := data }) bytes) := by
  intro entry laid
  have kept := laid.data.1.after_read (Stream.steady_ofBytes bytes)
  rw [laid.data.2] at kept
  cases ran : (Fragment.read : Edit (EntryData × Stream) Nat) (entry.data, .ofBytes bytes) <;>
    (simp only [Edit.after, ran] at kept
     simp only [Edit.after, Edit.readInside, ran]
     exact { laid with data := kept })

theorem Laid.keeps_read :
    Edit.Keeps (Edit.First (Laid kind)) (Fragment.read : Edit (ChainEntry × Stream) Nat) := by
  refine .bind (.ask _) fun _ => .bind (.fromStream _) fun header => ?_
  refine .bind (Edit.Keeps.onObject (Laid.keeps_onHeader fun _ => Buffer.Follows.keeps_append header))
    fun _ => ?_
  refine .bind (Edit.Keeps.onObject (Laid.keeps_onHeader fun _ => .ask _)) fun _ => ?_
  refine .bind (Edit.Keeps.onObject (.ask _)) fun length => .bind (.fromStream _) fun data => ?_
  refine .bind (Edit.Keeps.onObject (Laid.keeps_readData data)) fun consumed => .bind (.ask _) fun _ => ?_
  refine .bind (Edit.Keeps.onObject (.ask _)) fun length => .bind (.fromStream _) fun signature => ?_
  refine .bind (Edit.Keeps.onObject (.change fun entry _ laid ran => ?_)) fun _ =>
    .bind (Edit.Keeps.onObject (.ask _)) fun _ => .bind .get fun pair => .pure _
  simp only [bind_eq_ok_iff, pure_eq_ok_iff] at ran
  obtain ⟨slot, grown, rfl⟩ := ran
  exact { laid with slot := laid.slot.append grown }

theorem Standard.keeps_read :
    Edit.Keeps (Edit.First Standard) (Fragment.read : Edit (ChainEntry × Stream) Nat) := by
  rintro ⟨entry, stream⟩ standard
  have laid : Edit.First (Laid entry.kind) (entry, stream) := Standard.laid standard
  exact (Laid.keeps_read _ laid).standard

theorem Standard.writeKeeps : Fragment.WriteKeeps Standard := by
  rintro entry changed bytes offset standard ran
  have laid := standard.laid
  refine (Part.writeSpan_leaves (Laid entry.kind) laid ?_ ran).standard
  refine List.forall_mem_cons.mpr ⟨?header, List.forall_mem_cons.mpr ⟨?data,
    List.forall_mem_singleton.mpr ?slot⟩⟩
  case header =>
    exact Part.leaves_of (Buffer.Follows.writeKeeps _) laid.header fun _ kept =>
      { laid with header := kept }
  case data =>
    exact Part.leaves_of EntryData.Laid.writeKeeps laid.data fun _ kept => { laid with data := kept }
  case slot =>
    exact Part.leaves_of (Buffer.Follows.writeKeeps _) laid.slot fun _ kept =>
      { laid with slot := kept }

theorem Standard.maintained : Fragment.Maintains Standard :=
  ⟨Standard.writeKeeps, Standard.keeps_read, Standard.keeps_update⟩

/-- What is next in a stream is told by an entry without contents. -/
theorem blank_of_sniff (ran : sniff stream = .ok (some entry) left) :
    ∃ kind format, entry = empty kind format := by
  simp only [sniff, Edit.bind_eq_ok_iff] at ran
  obtain ⟨head, _, -, ran⟩ := ran
  by_cases short : head.length < 8
  · simp only [if_pos short, Edit.pure_eq_ok_iff, reduceCtorEq, false_and] at ran
  rw [if_neg short] at ran
  cases leads : EntryKind.ofMagic? (Bytes.wordAt head 0) with
  | none => simp only [leads, Edit.pure_eq_ok_iff, reduceCtorEq, false_and] at ran
  | some kind =>
    cases kind with
    | publicKey =>
      simp only [leads, Edit.bind_eq_ok_iff, Edit.pure_eq_ok_iff] at ran
      obtain ⟨_, _, -, _, _, -, same, -⟩ := ran
      exact ⟨_, _, (Option.some.inj same).symm⟩
    | root | multiRoot | block0 =>
      simp only [leads, Edit.pure_eq_ok_iff] at ran
      exact ⟨_, _, (Option.some.inj ran.1).symm⟩

theorem standard_of_sniff (stream : Stream) (found : Option ChainEntry) (left : Stream)
    (ran : sniff stream = .ok found left) (entry : ChainEntry) (chosen : found = some entry) :
    entry.Standard := by
  subst chosen
  obtain ⟨kind, format, rfl⟩ := blank_of_sniff ran
  exact standard_empty kind format

end ChainEntry

end SecureBoot
