import SecureBoot.Proofs.Sequence

/-!
Reading on. Buffers with nothing registered take the bytes of a stream one by one: each byte goes
into the first buffer that is not full, or into a new one if the bounds of the sequence admit
another. What a byte does depends on the sequence alone and not on the stream it comes from, so it
makes no difference where the bytes are cut into streams.
-/

namespace SecureBoot

namespace Buffer

variable {buffer : Buffer} {bytes more : Bytes} {stream : Stream}

/-- Nothing is registered in the buffer, and the limit admits its bytes. -/
structure Plain (buffer : Buffer) : Prop where
  magics : buffer.magics = []
  crcAddresses : buffer.crcAddresses = []
  bounded : ∀ most, buffer.limit = some most → buffer.size ≤ most

/-- Whether the limit admits no more bytes. -/
def full (buffer : Buffer) : Bool :=
  match buffer.limit with
  | none => false
  | some limit => limit ≤ buffer.size

/-- The buffer with bytes added at its end, the limit not checked. -/
def fed (buffer : Buffer) (bytes : Bytes) : Buffer :=
  { buffer with bytes := buffer.bytes ++ bytes }

/-- The limit admits more bytes. -/
def Admits (buffer : Buffer) (bytes : Bytes) : Prop :=
  ∀ most, buffer.limit = some most → buffer.size + bytes.length ≤ most

@[simp] theorem fed_nil (buffer : Buffer) : buffer.fed [] = buffer := by
  simp [fed]

theorem fed_fed (buffer : Buffer) (bytes more : Bytes) :
    (buffer.fed bytes).fed more = buffer.fed (bytes ++ more) := by
  simp [fed]

@[simp] theorem size_fed (buffer : Buffer) (bytes : Bytes) :
    (buffer.fed bytes).size = buffer.size + bytes.length := by
  simp [fed, size]

theorem full_iff : buffer.full = true ↔ ∃ most, buffer.limit = some most ∧ most ≤ buffer.size := by
  rw [full]
  cases buffer.limit <;> simp

theorem Admits.not_full {byte : UInt8} (admits : buffer.Admits (byte :: bytes)) :
    buffer.full = false := by
  rw [← Bool.not_eq_true, full_iff]
  rintro ⟨most, limited, reached⟩
  have := admits most limited
  rw [List.length_cons] at this
  omega

theorem Admits.fed {byte : UInt8} (admits : buffer.Admits (byte :: bytes)) :
    (buffer.fed [byte]).Admits bytes := by
  intro most limited
  have := admits most limited
  simp only [List.length_cons, size_fed, List.length_nil] at this ⊢
  omega

theorem Plain.fed (plain : buffer.Plain) (admits : buffer.Admits bytes) :
    (buffer.fed bytes).Plain :=
  ⟨plain.magics, plain.crcAddresses, by rw [size_fed]; exact admits⟩

theorem Plain.validate (plain : buffer.Plain) : buffer.validate = .ok () := by
  rw [validate_eq_ok_iff, plain.magics, plain.crcAddresses]
  exact ⟨plain.bounded, by simp [HasMagics], by simp [HasCrcs]⟩

theorem append_of_admits (admits : buffer.Admits bytes) : buffer.append bytes = .ok (buffer.fed bytes) :=
  append_eq_ok_iff.mpr ⟨admits, rfl⟩

/-- Filling a buffer takes what there is, up to the limit. -/
theorem fill_exists (within : ∀ most, buffer.limit = some most → buffer.size ≤ most)
    (steady : stream.Steady) :
    ∃ taken left, fill (buffer, stream) = .ok taken.length (buffer.fed taken, left) ∧
      stream.Advances left taken ∧ buffer.Admits taken ∧
      (left.unread = [] ∨ (buffer.fed taken).full = true) := by
  cases limited : buffer.limit with
  | none =>
    obtain ⟨left, ran, advances⟩ := Stream.readToEnd_steady steady
    have admits : buffer.Admits stream.unread :=
      fun most bounded => nomatch limited.symm.trans bounded
    refine ⟨stream.unread, left, ?_, advances, admits,
      .inl (advances.unread_eq (List.append_nil _).symm)⟩
    rw [fill_unbounded limited]
    exact appendFrom_eq_ok_iff.mpr ⟨_, ran, rfl, append_of_admits admits⟩
  | some limit =>
    have bounded := within limit limited
    by_cases reached : limit ≤ buffer.size
    · refine ⟨[], stream, ?_, .refl steady, fun most same => ?_, .inr ?_⟩
      · rw [fill_full limited reached, fed_nil]
        rfl
      · exact within most same
      · rw [fed_nil, full_iff]
        exact ⟨limit, limited, reached⟩
    · obtain ⟨left, ran, advances⟩ := Stream.readUpTo_steady (limit - buffer.size) steady
      have admits : buffer.Admits (stream.unread.take (limit - buffer.size)) := by
        intro most same
        obtain rfl : limit = most := Option.some.inj (limited.symm.trans same)
        rw [List.length_take]
        omega
      refine ⟨_, left, ?_, advances, admits, ?_⟩
      · rw [fill_bounded limited reached]
        exact appendFrom_eq_ok_iff.mpr ⟨_, ran, rfl, append_of_admits admits⟩
      · by_cases enough : limit - buffer.size ≤ stream.unread.length
        · right
          rw [full_iff]
          refine ⟨limit, limited, ?_⟩
          rw [size_fed, List.length_take]
          omega
        · left
          rw [List.take_of_length_le (by omega)] at advances
          exact advances.unread_eq (List.append_nil _).symm

/-- Reading into a plain buffer is filling it. -/
theorem Plain.read_exists (plain : buffer.Plain) (steady : stream.Steady) :
    ∃ taken left, read (buffer, stream) = .ok taken.length (buffer.fed taken, left) ∧
      stream.Advances left taken ∧ buffer.Admits taken ∧
      (left.unread = [] ∨ (buffer.fed taken).full = true) := by
  obtain ⟨taken, left, ran, advances, admits, settled⟩ := fill_exists plain.bounded steady
  exact ⟨taken, left, read_eq_ok_iff.mpr ⟨ran, fun _ => (plain.fed admits).validate⟩, advances,
    admits, settled⟩

end Buffer

namespace Sequence

open Buffer (full fed)

variable {sequence before between after : Sequence Buffer} {stream left : Stream}
  {front items back : List Buffer} {item : Buffer} {bytes taken more : Bytes} {byte : UInt8}
  {rounds : Nat}

/-- The buffers with a byte more in the first one that is not full. -/
def takeByte (byte : UInt8) : List Buffer → Option (List Buffer)
  | [] => none
  | item :: rest =>
    if item.full then (takeByte byte rest).map (item :: ·) else some (item.fed [byte] :: rest)

/-- The room for a new buffer. -/
def room (sequence : Sequence Buffer) : Option Nat :=
  roomFor sequence.remaining sequence.itemLimit

/-- Whether no new buffer is created, because there are enough or no byte would fit into it. -/
def closed (sequence : Sequence Buffer) : Bool :=
  sequence.countReached || sequence.room == some 0

/-- What the sequence makes of a byte. -/
def accept (sequence : Sequence Buffer) (byte : UInt8) : Sequence Buffer :=
  match takeByte byte sequence.items with
  | some items => { sequence with items := items }
  | none =>
    if sequence.closed then sequence
    else { sequence with items := sequence.items ++ [(Buffer.empty sequence.room).fed [byte]] }

theorem takeByte_append (reached : ∀ item ∈ front, full item = true) (items : List Buffer) :
    takeByte byte (front ++ items) = (takeByte byte items).map (front ++ ·) := by
  induction front with
  | nil => simp
  | cons first rest ih =>
    obtain ⟨here, others⟩ := List.forall_mem_cons.mp reached
    rw [List.cons_append, takeByte, if_pos here, ih others, Option.map_map]
    rfl

theorem takeByte_of_full (reached : ∀ item ∈ items, full item = true) :
    takeByte byte items = none := by
  have appended : takeByte byte (items ++ []) = (takeByte byte []).map (items ++ ·) :=
    takeByte_append reached []
  simpa [takeByte] using appended

/-- A buffer that admits the bytes takes all of them if those in front of it are full. -/
theorem foldl_accept_fed (holds : sequence.items = front ++ item :: back)
    (reached : taken = [] ∨ ∀ item ∈ front, full item = true) (admits : item.Admits taken) :
    taken.foldl accept sequence = { sequence with items := front ++ item.fed taken :: back } := by
  induction taken generalizing sequence item with
  | nil => simp [← holds]
  | cons byte rest ih =>
    have reached : ∀ item ∈ front, full item = true := reached.resolve_left (List.cons_ne_nil _ _)
    have step : sequence.accept byte =
        { sequence with items := front ++ item.fed [byte] :: back } := by
      rw [accept, holds, takeByte_append reached, takeByte, admits.not_full]
      rfl
    rw [List.foldl_cons, step, ih rfl (.inr reached) admits.fed, Buffer.fed_fed]
    rfl

/-- A sequence that has no place for a byte. -/
def Saturated (sequence : Sequence Buffer) : Prop :=
  ∀ byte, sequence.accept byte = sequence

theorem saturated_of_closed (reached : ∀ item ∈ sequence.items, full item = true)
    (closed : sequence.closed = true) : sequence.Saturated := by
  intro byte
  rw [accept, takeByte_of_full reached]
  simp only [closed, if_true]

theorem Saturated.foldl_accept (saturated : sequence.Saturated) (bytes : Bytes) :
    bytes.foldl accept sequence = sequence := by
  induction bytes with
  | nil => rfl
  | cons byte rest ih => rw [List.foldl_cons, saturated byte, ih]

/-- Nothing is left in the stream for buffers that follow these, unless all of these are full. -/
def Settled (items : List Buffer) (stream : Stream) : Prop :=
  stream.unread = [] ∨ ∀ item ∈ items, full item = true

/-- The bytes were taken from the stream, and the one sequence has become the other by taking each
of them. -/
structure Absorbs (before after : Sequence Buffer) (stream left : Stream) (taken : Bytes) : Prop where
  advances : stream.Advances left taken
  folds : taken.foldl accept before = after
  total : after.totalSize = before.totalSize + taken.length
  plain : ∀ item ∈ after.items, item.Plain

/-- A sequence stays as it is if nothing is taken. -/
theorem Absorbs.stay (advances : stream.Advances left [])
    (plain : ∀ item ∈ sequence.items, item.Plain) : sequence.Absorbs sequence stream left [] :=
  ⟨advances, rfl, rfl, plain⟩

theorem Absorbs.trans {middle : Stream} (first : before.Absorbs between stream middle taken)
    (second : between.Absorbs after middle left more) :
    before.Absorbs after stream left (taken ++ more) where
  advances := first.advances.trans second.advances
  folds := by rw [List.foldl_append, first.folds, second.folds]
  total := by rw [second.total, first.total, List.length_append, Nat.add_assoc]
  plain := second.plain

/-- A buffer among others takes its part of the stream. -/
theorem absorbs_item (holds : sequence.items = front ++ item :: back)
    (plain : ∀ item ∈ sequence.items, item.Plain) (settled : Settled front stream)
    (steady : stream.Steady) :
    ∃ taken left, Buffer.read (item, stream) = .ok taken.length (item.fed taken, left) ∧
      sequence.Absorbs { sequence with items := front ++ item.fed taken :: back } stream left taken ∧
      Settled (front ++ [item.fed taken]) left := by
  have member : item ∈ sequence.items := by simp [holds]
  obtain ⟨taken, left, ran, advances, admits, filled⟩ := (plain item member).read_exists steady
  have nothing (empty : stream.unread = []) : taken = [] ∧ left.unread = [] := by
    have split := advances.unread
    rw [empty] at split
    exact List.append_eq_nil_iff.mp split.symm
  refine ⟨taken, left, ran, ⟨advances, ?_, ?_, ?_⟩, ?_⟩
  · exact foldl_accept_fed holds (settled.imp_left fun empty => (nothing empty).1) admits
  · simp only [totalSize, holds, Fragment.totalSize_append, Fragment.totalSize]
    have grown : Fragment.size (item.fed taken) = Fragment.size item + taken.length :=
      item.size_fed taken
    omega
  · intro other there
    rcases List.mem_append.mp there with before | behind
    · exact plain other (by simp [holds, before])
    rcases List.mem_cons.mp behind with rfl | later
    · exact (plain item member).fed admits
    · exact plain other (by simp [holds, later])
  · rcases settled with empty | reached
    · exact .inl (nothing empty).2
    · exact filled.imp_right fun full => List.forall_mem_append.mpr
        ⟨reached, List.forall_mem_singleton.mpr full⟩

/-- The buffers there are take their parts one after the other. -/
theorem absorbs_known (holds : sequence.items = front ++ items)
    (plain : ∀ item ∈ sequence.items, item.Plain) (settled : Settled front stream)
    (steady : stream.Steady) :
    ∃ taken others left, Edit.eachWith Fragment.read (items, stream) =
        .ok taken.length (others, left) ∧
      sequence.Absorbs { sequence with items := front ++ others } stream left taken ∧
      Settled (front ++ others) left := by
  induction items generalizing sequence front stream with
  | nil =>
    refine ⟨[], [], stream, by rw [Edit.eachWith]; rfl, ?_, by simpa using settled⟩
    rw [← holds]
    exact .stay (.refl steady) plain
  | cons item rest ih =>
    obtain ⟨taken, between, ran, absorbs, settledOn⟩ := absorbs_item holds plain settled steady
    have holdsOn : ({ sequence with items := front ++ item.fed taken :: rest } :
        Sequence Buffer).items = front ++ [item.fed taken] ++ rest := by simp
    obtain ⟨more, others, left, ranOn, absorbsOn, settledEnd⟩ :=
      ih holdsOn absorbs.plain settledOn absorbs.advances.steady
    refine ⟨taken ++ more, item.fed taken :: others, left, ?_, ?_, ?_⟩
    · have first : Fragment.read (item, stream) = .ok taken.length (item.fed taken, between) := ran
      simp only [Edit.eachWith, first, ranOn, List.length_append]
    · rw [List.append_assoc, List.singleton_append] at absorbsOn
      exact absorbs.trans absorbsOn
    · simpa using settledEnd

theorem room_eq_some_zero_of_remaining (exhausted : sequence.remaining = some 0) :
    sequence.room = some 0 := by
  rw [room, exhausted]
  cases sequence.itemLimit <;> simp [roomFor]

/-- A buffer that was created for the room there is stays within the bounds. -/
theorem append_created (admits : (Buffer.empty sequence.room).Admits taken)
    (more : ¬sequence.remaining = some 0) :
    sequence.append ((Buffer.empty sequence.room).fed taken) =
      .ok { sequence with items := sequence.items ++ [(Buffer.empty sequence.room).fed taken] } := by
  have sized : Fragment.size ((Buffer.empty sequence.room).fed taken) = taken.length := by
    rw [show Fragment.size ((Buffer.empty sequence.room).fed taken) = _ from Buffer.size_fed _ _]
    simp [Buffer.empty, Buffer.size]
  have bounded (most : Nat) (limited : sequence.room = some most) : taken.length ≤ most := by
    simpa [Buffer.empty, Buffer.size] using admits most limited
  rw [append_eq_ok_iff, sized]
  simp only [room, roomFor, remaining] at bounded
  simp only [remaining_eq_zero_iff, not_exists, not_and, Nat.not_le] at more
  cases limited : sequence.limit <;> cases each : sequence.itemLimit <;>
    simp_all <;> omega

/-- A new buffer takes its part of the stream, unless the sequence has no place. -/
theorem absorbs_created (reached : ∀ item ∈ sequence.items, full item = true)
    (few : sequence.countReached = false) (remains : ¬sequence.remaining = some 0)
    (plain : ∀ item ∈ sequence.items, item.Plain) (steady : stream.Steady)
    (unended : stream.unread ≠ []) :
    ∃ taken left, Buffer.read (Buffer.empty sequence.room, stream) =
        .ok taken.length ((Buffer.empty sequence.room).fed taken, left) ∧
      stream.Advances left taken ∧ (taken = [] → sequence.Saturated) ∧
      (taken ≠ [] → ∃ changed,
        sequence.append ((Buffer.empty sequence.room).fed taken) = .ok changed ∧
        sequence.Absorbs changed stream left taken ∧ Settled changed.items left) := by
  have blank : (Buffer.empty sequence.room).Plain := ⟨rfl, rfl, fun _ _ => Nat.zero_le _⟩
  obtain ⟨taken, left, ran, advances, admits, filled⟩ := blank.read_exists steady
  refine ⟨taken, left, ran, advances, fun nothing => ?_, fun something => ?_⟩
  · subst nothing
    rw [advances.unread, List.nil_append] at unended
    obtain ⟨most, limited, zero⟩ := Buffer.full_iff.mp (filled.resolve_left unended)
    have room : sequence.room = some 0 := by
      rw [show sequence.room = some most from limited]
      simpa [Buffer.empty, Buffer.size] using zero
    exact saturated_of_closed reached (by simp [closed, room])
  · obtain ⟨byte, rest, rfl⟩ := List.exists_cons_of_ne_nil something
    have opened : sequence.closed = false := by
      have room : sequence.room ≠ some 0 := by
        intro noRoom
        have := admits 0 noRoom
        simp at this
      simp [closed, few, room]
    have step : sequence.accept byte =
        { sequence with items := sequence.items ++ [(Buffer.empty sequence.room).fed [byte]] } := by
      rw [accept, takeByte_of_full reached]
      simp only [opened, Bool.false_eq_true, if_false]
    refine ⟨_, append_created admits remains, ⟨advances, ?_, ?_, ?_⟩, ?_⟩
    · rw [List.foldl_cons, step, foldl_accept_fed rfl (.inr reached) admits.fed, Buffer.fed_fed]
      rfl
    · simp only [totalSize, Fragment.totalSize_append, Fragment.totalSize]
      have grown : Fragment.size ((Buffer.empty sequence.room).fed (byte :: rest)) =
          Fragment.size (Buffer.empty sequence.room) + (byte :: rest).length :=
        (Buffer.empty sequence.room).size_fed (byte :: rest)
      have zero : Fragment.size (Buffer.empty sequence.room) = 0 := rfl
      omega
    · exact List.forall_mem_append.mpr ⟨plain, List.forall_mem_singleton.mpr (blank.fed admits)⟩
    · exact filled.imp_right fun full => List.forall_mem_append.mpr
        ⟨reached, List.forall_mem_singleton.mpr full⟩

theorem readNew_enough (reached : sequence.countReached = true) :
    readNew (rounds + 1) (sequence, stream) = .ok 0 (sequence, stream) := by
  rw [readNew, Edit.bind_of_ok (Edit.get_eq_ok_iff.mpr ⟨rfl, rfl⟩)]
  simp only [reached, if_true]
  rfl

theorem readNew_filled (few : sequence.countReached = false)
    (filled : sequence.remaining = some 0) :
    readNew (rounds + 1) (sequence, stream) = .ok 0 (sequence, stream) := by
  rw [readNew, Edit.bind_of_ok (Edit.get_eq_ok_iff.mpr ⟨rfl, rfl⟩)]
  simp only [few, filled, Bool.false_eq_true, if_false, if_true]
  rfl

theorem readNew_ended (few : sequence.countReached = false) (remains : ¬sequence.remaining = some 0)
    (looks : Stream.isExhausted stream = .ok true left) :
    readNew (rounds + 1) (sequence, stream) = .ok 0 (sequence, left) := by
  have looksOn : Edit.fromStream Stream.isExhausted (sequence, stream) =
      .ok true (sequence, left) := Edit.fromStream_eq_ok_iff.mpr ⟨looks, rfl⟩
  rw [readNew, Edit.bind_of_ok (Edit.get_eq_ok_iff.mpr ⟨rfl, rfl⟩)]
  simp only [few, remains, Bool.false_eq_true, if_false]
  rw [Edit.bind_of_ok looksOn]
  rfl

/-- A round reads into a new buffer, keeps it if there is something in it, and goes on. -/
theorem readNew_opened {looked : Stream} (few : sequence.countReached = false)
    (remains : ¬sequence.remaining = some 0) (looks : Stream.isExhausted stream = .ok false looked) :
    readNew (rounds + 1) (sequence, stream) =
      (do
        let (count, item) ← Edit.fromStream (Edit.readNew (Buffer.empty sequence.room))
        if count = 0 then return 0
        Edit.onObject (Edit.change (·.append item))
        return count + (← readNew rounds) : Edit (Sequence Buffer × Stream) Nat)
          (sequence, looked) := by
  have looksOn : Edit.fromStream Stream.isExhausted (sequence, stream) =
      .ok false (sequence, looked) := Edit.fromStream_eq_ok_iff.mpr ⟨looks, rfl⟩
  have allocates : Edit.fromStream (Allocate.allocate
      (roomFor sequence.remaining sequence.itemLimit)) (sequence, looked) =
        .ok (some (Buffer.empty sequence.room)) (sequence, looked) := rfl
  rw [readNew, Edit.bind_of_ok (Edit.get_eq_ok_iff.mpr ⟨rfl, rfl⟩)]
  simp only [few, remains, Bool.false_eq_true, if_false]
  rw [Edit.bind_of_ok looksOn]
  simp only [Bool.false_eq_true, if_false]
  rw [Edit.bind_of_ok allocates]

theorem readNew_created {looked : Stream} {count : Nat} (few : sequence.countReached = false)
    (remains : ¬sequence.remaining = some 0) (looks : Stream.isExhausted stream = .ok false looked)
    (ran : Buffer.read (Buffer.empty sequence.room, looked) = .ok count (item, left)) :
    readNew (rounds + 1) (sequence, stream) =
      (if count = 0 then pure 0 else do
        Edit.onObject (Edit.change (·.append item))
        return count + (← readNew rounds) : Edit (Sequence Buffer × Stream) Nat)
          (sequence, left) := by
  have reads : Edit.fromStream (Edit.readNew (Buffer.empty sequence.room)) (sequence, looked) =
      .ok (count, item) (sequence, left) :=
    Edit.fromStream_eq_ok_iff.mpr ⟨Edit.readNew_eq_ok_iff.mpr ran, rfl⟩
  rw [readNew_opened few remains looks, Edit.bind_of_ok reads]

/-- New buffers take theirs until the stream has ended or the sequence has no place. -/
theorem absorbs_new (enough : stream.unread.length < rounds)
    (plain : ∀ item ∈ sequence.items, item.Plain) (settled : Settled sequence.items stream)
    (steady : stream.Steady) :
    ∃ taken changed left, readNew rounds (sequence, stream) = .ok taken.length (changed, left) ∧
      sequence.Absorbs changed stream left taken ∧ (left.unread = [] ∨ changed.Saturated) := by
  induction rounds generalizing sequence stream with
  | zero => omega
  | succ rounds ih =>
    cases few : sequence.countReached with
    | true =>
      refine ⟨[], sequence, stream, readNew_enough few, .stay (.refl steady) plain, ?_⟩
      exact settled.imp_right fun reached => saturated_of_closed reached (by simp [closed, few])
    | false =>
      by_cases remains : sequence.remaining = some 0
      · refine ⟨[], sequence, stream, readNew_filled few remains, .stay (.refl steady) plain, ?_⟩
        exact settled.imp_right fun reached => saturated_of_closed reached
          (by simp [closed, room_eq_some_zero_of_remaining remains])
      obtain ⟨looked, ranLook, looks⟩ := Stream.isExhausted_steady steady
      have same : stream.unread = looked.unread := looks.unread
      by_cases empty : stream.unread = []
      · rw [List.isEmpty_iff.mpr empty] at ranLook
        exact ⟨[], sequence, looked, readNew_ended few remains ranLook, .stay looks plain,
          .inl (same ▸ empty)⟩
      rw [List.isEmpty_eq_false_iff.mpr empty] at ranLook
      obtain ⟨taken, left, ran, advances, stops, goesOn⟩ := absorbs_created
        (settled.resolve_left empty) few remains plain looks.steady (same ▸ empty)
      have round : readNew (rounds + 1) (sequence, stream) = _ :=
        readNew_created few remains ranLook ran
      by_cases nothing : taken = []
      · subst nothing
        exact ⟨[], sequence, left, round, .stay (looks.trans advances) plain, .inr (stops rfl)⟩
      · obtain ⟨changed, grown, absorbs, settledOn⟩ := goesOn nothing
        have shorter : left.unread.length < rounds := by
          have split := congrArg List.length (same.trans advances.unread)
          have := List.length_pos_iff.mpr nothing
          rw [List.length_append] at split
          omega
        obtain ⟨more, last, rest, ranOn, absorbsOn, done⟩ :=
          ih shorter absorbs.plain settledOn advances.steady
        have grows : Edit.onObject (Edit.change
            (·.append ((Buffer.empty sequence.room).fed taken))) (sequence, left) =
              .ok () (changed, left) :=
          Edit.onObject_eq_ok_iff.mpr ⟨Edit.change_of_ok grown, rfl⟩
        refine ⟨taken ++ more, last, rest, ?_,
          (Absorbs.stay looks plain).trans (absorbs.trans absorbsOn), done⟩
        rw [round, if_neg (by simpa using nothing), Edit.bind_of_ok grows, Edit.bind_of_ok ranOn,
          List.length_append]
        rfl

/-- Reading a stream into plain buffers is taking its bytes one by one. -/
theorem read_eq_foldl_accept (plain : ∀ item ∈ sequence.items, item.Plain)
    (steady : stream.Steady) :
    ∃ count left, read (sequence, stream) =
        .ok count (stream.unread.foldl accept sequence, left) ∧
      (stream.unread.foldl accept sequence).totalSize = sequence.totalSize + count ∧
      ∀ item ∈ (stream.unread.foldl accept sequence).items, item.Plain := by
  obtain ⟨taken, items, between, ran, absorbs, settled⟩ :=
    absorbs_known (List.nil_append _).symm plain (.inr (by simp)) steady
  rw [List.nil_append] at absorbs settled
  obtain ⟨more, changed, left, ranOn, absorbsOn, done⟩ :=
    absorbs_new (Nat.lt_add_one between.unread.length) absorbs.plain settled absorbs.advances.steady
  have whole := absorbs.trans absorbsOn
  -- What is left in the stream is what the sequence has no place for.
  have same : stream.unread.foldl accept sequence = changed := by
    rw [whole.advances.unread, List.foldl_append, whole.folds]
    rcases done with ended | saturated
    · rw [ended]
      rfl
    · exact saturated.foldl_accept left.unread
  refine ⟨(taken ++ more).length, left, ?_, same ▸ whole.total, same ▸ whole.plain⟩
  rw [read_of_known ran, Edit.bind_of_ok ranOn, same, List.length_append]
  rfl

/-- Read what the stream holds, and drop the stream. -/
def readFrom (stream : Stream) : Edit (Sequence Buffer) Nat := fun sequence =>
  match read (sequence, stream) with
  | .ok count (sequence, _) => .ok count sequence
  | .error failure (sequence, _) => .error failure sequence

/-- Read what one stream after the other holds; the answer is what was read altogether. -/
def readAll : List Stream → Edit (Sequence Buffer) Nat
  | [] => pure 0
  | stream :: rest => do
    let count ← readFrom stream
    return count + (← readAll rest)

theorem readFrom_of_ok {count : Nat} (ran : read (before, stream) = .ok count (after, left)) :
    readFrom stream before = .ok count after := by
  rw [readFrom, ran]

theorem readAll_eq_foldl_accept {streams : List Stream}
    (plain : ∀ item ∈ sequence.items, item.Plain) (steady : ∀ stream ∈ streams, stream.Steady) :
    ∃ count, readAll streams sequence =
        .ok count ((streams.flatMap Stream.unread).foldl accept sequence) ∧
      ((streams.flatMap Stream.unread).foldl accept sequence).totalSize =
        sequence.totalSize + count := by
  induction streams generalizing sequence with
  | nil => exact ⟨0, rfl, rfl⟩
  | cons stream rest ih =>
    obtain ⟨here, others⟩ := List.forall_mem_cons.mp steady
    obtain ⟨first, left, ran, total, plainOn⟩ := read_eq_foldl_accept plain here
    obtain ⟨more, ranOn, totalOn⟩ := ih plainOn others
    rw [List.flatMap_cons, List.foldl_append]
    refine ⟨first + more, ?_, by rw [totalOn, total, Nat.add_assoc]⟩
    rw [readAll, Edit.bind_of_ok (readFrom_of_ok ran), Edit.bind_of_ok ranOn]
    rfl

/-- Wherever bytes are cut into streams, a sequence of buffers that starts empty is the same after
reading these one after the other as after reading the bytes at once, whatever its bounds are; and
either way the answers add up to its size. -/
theorem readAll_eq_read {start : Sequence Buffer} (blank : start.items = [])
    {streams : List Stream} (steady : ∀ stream ∈ streams, stream.Steady) {whole : Stream}
    (steadyWhole : whole.Steady) (joined : whole.unread = streams.flatMap Stream.unread) :
    ∃ result left, readAll streams start = .ok result.totalSize result ∧
      read (start, whole) = .ok result.totalSize (result, left) := by
  have plain : ∀ item ∈ start.items, item.Plain := by simp [blank]
  have bare : start.totalSize = 0 := by rw [totalSize, blank]; rfl
  obtain ⟨count, left, ran, total, -⟩ := read_eq_foldl_accept plain steadyWhole
  obtain ⟨sum, ranAll, totalAll⟩ := readAll_eq_foldl_accept plain steady
  rw [bare, Nat.zero_add] at total totalAll
  rw [← joined] at ranAll totalAll
  exact ⟨_, left, totalAll ▸ ranAll, total ▸ ran⟩

/-- The second of three streams is empty, the first cut is inside a buffer of two bytes, and the last
byte is beyond the limit. -/
theorem readAll_eq_read_threeStreams :
    let start : Sequence Buffer := (empty (some 5)).withItemLimit 2
    let streams := [Stream.ofBytes [1, 2, 3], Stream.ofBytes [], Stream.ofBytes [4, 5, 6]]
    ∃ result left, readAll streams start = .ok result.totalSize result ∧
      read (start, Stream.ofBytes [1, 2, 3, 4, 5, 6]) = .ok result.totalSize (result, left) :=
  readAll_eq_read rfl (by simp [Stream.steady_ofBytes]) (Stream.steady_ofBytes _) rfl

end Sequence
end SecureBoot
