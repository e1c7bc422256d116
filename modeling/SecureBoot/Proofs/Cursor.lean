import SecureBoot.Proofs.Stream

/-!
Streams as cursors. Bytes move from the source to the look-ahead and from there to the caller, in
pieces that the source chooses; whoever calls sees none of this, only a position in the bytes that
the source holds. `At` relates a stream to a cursor, every call keeps them together, and so does
every run of calls.
-/

namespace SecureBoot

/-- The source delivers the bytes in pieces, none of them empty, asks for a read to be repeated as
often as it likes in between, and then ends. -/
structure Source.Delivers (source : Source) (bytes : Bytes) : Prop where
  held : Source.bytesOf source.deliveries = bytes
  pieces : Delivery.piece [] ∉ source.deliveries
  sound : Delivery.failure ∉ source.deliveries
  ends : source.finish = .ended

namespace Stream

/-- What can be asked of a stream. -/
inductive Call
  | peek (count : Nat)
  | readUpTo (count : Nat)
  | readToEnd
  | isExhausted
  | position
  deriving DecidableEq, Repr

/-- What a stream answers. -/
inductive Answer
  | bytes (bytes : Bytes)
  | truth (holds : Bool)
  | number (value : Nat)
  deriving DecidableEq, Repr

/-- A position in bytes that are all there. -/
structure Cursor where
  bytes : Bytes
  position : Nat
  deriving DecidableEq, Repr

namespace Call

/-- The call on a stream. -/
def onStream : Call → Edit Stream Answer
  | peek count => .bytes <$> Stream.peek count
  | readUpTo count => .bytes <$> Stream.readUpTo count
  | readToEnd => .bytes <$> Stream.readToEnd
  | isExhausted => .truth <$> Stream.isExhausted
  | position => (fun stream => .number stream.position) <$> get

/-- The answer of a cursor, and where the cursor is then. -/
def onCursor (cursor : Cursor) : Call → Answer × Cursor
  | peek count => (.bytes (Bytes.slice cursor.bytes cursor.position count), cursor)
  | readUpTo count =>
    let taken := Bytes.slice cursor.bytes cursor.position count
    (.bytes taken, { cursor with position := cursor.position + taken.length })
  | readToEnd =>
    (.bytes (cursor.bytes.drop cursor.position),
      { cursor with position := cursor.bytes.length })
  | isExhausted => (.truth (cursor.position = cursor.bytes.length), cursor)
  | position => (.number cursor.position, cursor)

end Call

/-- The answers of a stream to calls one after the other. -/
def answers : List Call → Edit Stream (List Answer)
  | [] => pure []
  | call :: rest => do
    let first ← call.onStream
    return first :: (← answers rest)

/-- The answers of a cursor to calls one after the other, and where the cursor is in the end. -/
def Cursor.answers (cursor : Cursor) : List Call → List Answer × Cursor
  | [] => ([], cursor)
  | call :: rest =>
    let (first, next) := call.onCursor cursor
    let (others, last) := next.answers rest
    (first :: others, last)

/-- The stream cannot fail and has consumed what stands before the cursor. -/
structure At (stream : Stream) (cursor : Cursor) : Prop where
  steady : stream.Steady
  position : stream.position = cursor.position
  unread : stream.unread = cursor.bytes.drop cursor.position
  inside : cursor.position ≤ cursor.bytes.length

namespace At

variable {stream after : Stream} {cursor : Cursor} {taken : Bytes}

/-- A stream from which bytes were taken is where the cursor is that has moved over them. -/
theorem advance (here : stream.At cursor) (advances : stream.Advances after taken) :
    after.At { cursor with position := cursor.position + taken.length } := by
  have unread := here.unread
  rw [advances.unread] at unread
  have rest : after.unread = cursor.bytes.drop (cursor.position + taken.length) := by
    rw [← List.drop_drop, ← unread, List.drop_left]
  have long := congrArg List.length unread
  rw [List.length_append, List.length_drop] at long
  have inside := here.inside
  refine ⟨advances.steady, ?_, rest, ?_⟩
  · rw [advances.position, here.position]
  · show cursor.position + taken.length ≤ cursor.bytes.length
    omega

/-- Looking ahead leaves the stream where it is. -/
theorem stay (here : stream.At cursor) (advances : stream.Advances after []) : after.At cursor :=
  here.advance advances

/-- A stream and a cursor that are at the same place answer a call alike and stay together. -/
theorem call (here : stream.At cursor) (call : Call) :
    ∃ after, call.onStream stream = .ok (call.onCursor cursor).1 after ∧
      after.At (call.onCursor cursor).2 := by
  cases call with
  | peek count =>
    obtain ⟨after, ran, advances⟩ := peek_steady count here.steady
    rw [here.unread] at ran
    exact ⟨after, Edit.map_eq_ok_iff.mpr ⟨_, ran, rfl⟩, here.stay advances⟩
  | readUpTo count =>
    obtain ⟨after, ran, advances⟩ := readUpTo_steady count here.steady
    rw [here.unread] at ran advances
    exact ⟨after, Edit.map_eq_ok_iff.mpr ⟨_, ran, rfl⟩, here.advance advances⟩
  | readToEnd =>
    obtain ⟨after, ran, advances⟩ := readToEnd_steady here.steady
    rw [here.unread] at ran advances
    have atEnd := here.advance advances
    rw [List.length_drop, Nat.add_sub_cancel' here.inside] at atEnd
    exact ⟨after, Edit.map_eq_ok_iff.mpr ⟨_, ran, rfl⟩, atEnd⟩
  | isExhausted =>
    obtain ⟨after, ran, advances⟩ := isExhausted_steady here.steady
    have ended : stream.unread.isEmpty = decide (cursor.position = cursor.bytes.length) := by
      rw [here.unread, Bool.eq_iff_iff, List.isEmpty_iff, List.drop_eq_nil_iff, decide_eq_true_iff]
      exact ⟨fun past => Nat.le_antisymm here.inside past, fun same => Nat.le_of_eq same.symm⟩
    rw [ended] at ran
    exact ⟨after, Edit.map_eq_ok_iff.mpr ⟨_, ran, rfl⟩, here.stay advances⟩
  | position =>
    refine ⟨stream, ?_, here⟩
    rw [Call.onCursor, ← here.position]
    rfl

/-- So they do for calls one after the other. -/
theorem answers (here : stream.At cursor) (calls : List Call) :
    ∃ after, Stream.answers calls stream = .ok (cursor.answers calls).1 after ∧
      after.At (cursor.answers calls).2 := by
  induction calls generalizing stream cursor with
  | nil => exact ⟨stream, rfl, here⟩
  | cons first rest ih =>
    obtain ⟨between, ran, there⟩ := here.call first
    obtain ⟨after, ranOn, last⟩ := ih there
    refine ⟨after, ?_, last⟩
    rw [Stream.answers, Edit.bind_of_ok ran, Edit.bind_of_ok ranOn]
    rfl

end At

/-- A stream at the start of a source is a cursor at the start of the bytes the source delivers. -/
theorem at_ofSource {source : Source} {bytes : Bytes} (delivers : source.Delivers bytes) :
    (ofSource source).At ⟨bytes, 0⟩ := by
  refine ⟨.inr ⟨delivers.ends, delivers.sound⟩, rfl, ?_, Nat.zero_le _⟩
  rw [List.drop_zero, ← delivers.held]
  rfl

/-- Whatever pieces a source delivers bytes in, and however often it interrupts, a stream over it
answers all calls as a cursor over these bytes does, and none of them fails. -/
theorem answers_eq_cursor (source : Source) (bytes : Bytes) (delivers : source.Delivers bytes)
    (calls : List Call) :
    ∃ left, answers calls (ofSource source) = .ok (Cursor.answers ⟨bytes, 0⟩ calls).1 left ∧
      left.At (Cursor.answers ⟨bytes, 0⟩ calls).2 :=
  (at_ofSource delivers).answers calls

/-- Five bytes in three pieces, with interruptions before and between them. -/
theorem answers_eq_cursor_pieces :
    ∃ left, answers [.peek 4, .readUpTo 2, .isExhausted, .position, .peek 9, .readToEnd, .readUpTo 1,
        .isExhausted, .position]
      (ofSource ⟨[.interrupted, .piece [1], .interrupted, .interrupted, .piece [2, 3, 4],
        .piece [5]], .ended⟩) =
      .ok [.bytes [1, 2, 3, 4], .bytes [1, 2], .truth false, .number 2, .bytes [3, 4, 5],
        .bytes [3, 4, 5], .bytes [], .truth true, .number 5] left := by
  have delivers : Source.Delivers ⟨[.interrupted, .piece [1], .interrupted, .interrupted,
      .piece [2, 3, 4], .piece [5]], .ended⟩ [1, 2, 3, 4, 5] :=
    ⟨rfl, by decide, by decide, rfl⟩
  obtain ⟨left, ran, -⟩ := answers_eq_cursor _ _ delivers
    [.peek 4, .readUpTo 2, .isExhausted, .position, .peek 9, .readToEnd, .readUpTo 1, .isExhausted,
      .position]
  exact ⟨left, ran⟩

end Stream
end SecureBoot
