import SecureBoot.Proofs.Buffer
import SecureBoot.Proofs.Stream

/-!
Reading in both directions. `Serves` says of a call on a stream, and `Takes` of a call that reads
into an object, which bytes it takes from every steady stream that holds them before a given rest;
the rules here put such facts together along the steps of a call. The lemmas that end in `_sound`
go the other way: what a successful call took and what it made of it.
-/

namespace SecureBoot.Edit

variable {σ τ α β : Type} {object between changed : σ} {bytes more rest : Bytes} {answer : α}
  {result : β} {stream left : Stream} {count size : Nat}

/-- From every steady stream that holds the bytes before the rest, the call takes just them. -/
def Serves (call : Edit Stream α) (bytes rest : Bytes) (answer : α) : Prop :=
  ∀ stream : Stream, stream.Steady → stream.unread = bytes ++ rest →
    ∃ left, call stream = .ok answer left ∧ stream.Advances left bytes

/-- From every steady stream that holds the bytes before the rest, the call takes just them into
the object. -/
def Takes (call : Edit (σ × Stream) α) (object : σ) (bytes rest : Bytes) (answer : α)
    (changed : σ) : Prop :=
  ∀ stream : Stream, stream.Steady → stream.unread = bytes ++ rest →
    ∃ left, call (object, stream) = .ok answer (changed, left) ∧ stream.Advances left bytes

namespace Serves

theorem sound {call : Edit Stream α} {other : α} (serves : Serves call bytes rest answer)
    (steady : stream.Steady) (held : stream.unread = bytes ++ rest)
    (ran : call stream = .ok other left) : other = answer ∧ stream.Advances left bytes := by
  obtain ⟨expected, same, advances⟩ := serves stream steady held
  rw [ran] at same
  obtain ⟨rfl, rfl⟩ : other = answer ∧ left = expected := by simpa using same
  exact ⟨rfl, advances⟩

theorem pure (answer : α) (rest : Bytes) : Serves (pure answer) [] rest answer :=
  fun stream steady _ => ⟨stream, rfl, .refl steady⟩

theorem bind {call : Edit Stream α} {next : α → Edit Stream β}
    (first : Serves call bytes (more ++ rest) answer) (second : Serves (next answer) more rest result) :
    Serves (call >>= next) (bytes ++ more) rest result := by
  intro stream steady held
  rw [List.append_assoc] at held
  obtain ⟨between, ran, advances⟩ := first stream steady held
  obtain ⟨after, ranOn, further⟩ := second between advances.steady (advances.unread_eq held)
  exact ⟨after, by rw [bind_of_ok ran, ranOn], advances.trans further⟩

/-- A step that only looks ahead. -/
theorem look {call : Edit Stream α} {next : α → Edit Stream β}
    (first : Serves call [] (bytes ++ rest) answer) (second : Serves (next answer) bytes rest result) :
    Serves (call >>= next) bytes rest result :=
  first.bind second

/-- A last step that takes nothing more. -/
theorem last {call : Edit Stream α} {next : α → Edit Stream β}
    (first : Serves call bytes rest answer) (second : Serves (next answer) [] rest result) :
    Serves (call >>= next) bytes rest result := by
  have both : Serves (call >>= next) (bytes ++ []) rest result := bind first second
  rwa [List.append_nil] at both

theorem ask {question : Stream → Except Failure α}
    (answers : ∀ stream, question stream = .ok answer) : Serves (ask question) [] rest answer := by
  intro stream steady _
  refine ⟨stream, ?_, .refl steady⟩
  rw [ask_eq_ok_iff]
  exact ⟨answers stream, rfl⟩

theorem peek (count : Nat) (rest : Bytes) :
    Serves (Stream.peek count) [] rest (rest.take count) := by
  intro stream steady held
  rw [← List.nil_append rest, ← held]
  exact Stream.peek_steady count steady

theorem isExhausted (rest : Bytes) : Serves Stream.isExhausted [] rest rest.isEmpty := by
  intro stream steady held
  rw [← List.nil_append rest, ← held]
  exact Stream.isExhausted_steady steady

theorem readUpTo (exact : bytes.length = count) :
    Serves (Stream.readUpTo count) bytes rest bytes := by
  intro stream steady held
  obtain ⟨after, ran, advances⟩ := Stream.readUpTo_steady count steady
  rw [held, List.take_left' exact] at ran advances
  exact ⟨after, ran, advances⟩

theorem readToEnd (bytes : Bytes) : Serves Stream.readToEnd bytes [] bytes := by
  intro stream steady held
  rw [List.append_nil] at held
  rw [← held]
  exact Stream.readToEnd_steady steady

theorem takeExactly (exact : bytes.length = size) (field : LengthField) :
    Serves (takeExactly size field) bytes rest bytes := by
  have enough : Serves (Edit.ask fun _ =>
      require (bytes.length = size) (.lengthMismatch field size bytes.length)) [] rest () :=
    ask fun _ => require_of exact
  exact last (readUpTo exact) (look enough (pure bytes rest))

theorem readNew [Fragment τ] {fragment read : τ}
    (takes : Takes Fragment.read fragment bytes rest count read) :
    Serves (readNew fragment) bytes rest (count, read) := by
  intro stream steady held
  obtain ⟨left, ran, advances⟩ := takes stream steady held
  exact ⟨left, readNew_eq_ok_iff.mpr ran, advances⟩

end Serves

namespace Takes

theorem sound {call : Edit (σ × Stream) α} {other : α} {ended : σ}
    (takes : Takes call object bytes rest answer changed) (steady : stream.Steady)
    (held : stream.unread = bytes ++ rest) (ran : call (object, stream) = .ok other (ended, left)) :
    other = answer ∧ ended = changed ∧ stream.Advances left bytes := by
  obtain ⟨expected, same, advances⟩ := takes stream steady held
  rw [ran] at same
  obtain ⟨rfl, rfl, rfl⟩ : other = answer ∧ ended = changed ∧ left = expected := by
    simpa using same
  exact ⟨rfl, rfl, advances⟩

theorem pure (answer : α) (object : σ) (rest : Bytes) :
    Takes (pure answer) object [] rest answer object :=
  fun stream steady _ => ⟨stream, rfl, .refl steady⟩

theorem bind {call : Edit (σ × Stream) α} {next : α → Edit (σ × Stream) β}
    (first : Takes call object bytes (more ++ rest) answer between)
    (second : Takes (next answer) between more rest result changed) :
    Takes (call >>= next) object (bytes ++ more) rest result changed := by
  intro stream steady held
  rw [List.append_assoc] at held
  obtain ⟨left, ran, advances⟩ := first stream steady held
  obtain ⟨after, ranOn, further⟩ := second left advances.steady (advances.unread_eq held)
  exact ⟨after, by rw [bind_of_ok ran, ranOn], advances.trans further⟩

/-- A step that takes nothing. -/
theorem look {call : Edit (σ × Stream) α} {next : α → Edit (σ × Stream) β}
    (first : Takes call object [] (bytes ++ rest) answer between)
    (second : Takes (next answer) between bytes rest result changed) :
    Takes (call >>= next) object bytes rest result changed :=
  first.bind second

/-- A last step that takes nothing more. -/
theorem last {call : Edit (σ × Stream) α} {next : α → Edit (σ × Stream) β}
    (first : Takes call object bytes rest answer between)
    (second : Takes (next answer) between [] rest result changed) :
    Takes (call >>= next) object bytes rest result changed := by
  have both : Takes (call >>= next) object (bytes ++ []) rest result changed := bind first second
  rwa [List.append_nil] at both

/-- A step that looks at the object and its stream. -/
theorem get_bind {next : σ × Stream → Edit (σ × Stream) β}
    (second : ∀ stream : Stream, stream.unread = bytes ++ rest →
      Takes (next (object, stream)) object bytes rest result changed) :
    Takes (get >>= next) object bytes rest result changed := by
  intro stream steady held
  exact second stream held stream steady held

theorem ask {question : σ × Stream → Except Failure α}
    (answers : ∀ stream, question (object, stream) = .ok answer) :
    Takes (ask question) object [] rest answer object := by
  intro stream steady _
  refine ⟨stream, ?_, .refl steady⟩
  rw [ask_eq_ok_iff]
  exact ⟨answers stream, rfl⟩

theorem onObject {call : Edit σ α} (ran : call object = .ok answer changed) (rest : Bytes) :
    Takes (onObject call) object [] rest answer changed := by
  intro stream steady _
  exact ⟨stream, onObject_eq_ok_iff.mpr ⟨ran, rfl⟩, .refl steady⟩

/-- A question that the object answers. -/
theorem check {question : σ → Except Failure α} (answers : question object = .ok answer)
    (rest : Bytes) :
    Takes (Edit.onObject (Edit.ask question)) object [] rest answer object :=
  .onObject (Edit.ask_eq_ok_iff.mpr ⟨answers, rfl⟩) rest

theorem modify (next : σ → σ) (object : σ) (rest : Bytes) :
    Takes (Edit.onObject (modify next)) object [] rest () (next object) :=
  .onObject (Edit.modify_eq_ok_iff.mpr rfl) rest

theorem fromStream {call : Edit Stream α} (serves : Serves call bytes rest answer) (object : σ) :
    Takes (fromStream call) object bytes rest answer object := by
  intro stream steady held
  obtain ⟨left, ran, advances⟩ := serves stream steady held
  exact ⟨left, fromStream_eq_ok_iff.mpr ⟨ran, rfl⟩, advances⟩

/-- A call on a component of the object and its stream. -/
theorem part {call : Edit (τ × Stream) α} {view : σ → τ} {put : σ → τ → σ} {component : τ}
    (takes : Takes call (view object) bytes rest answer component) :
    Takes (within (fun (object, stream) => (view object, stream))
      (fun (object, _) (component, stream) => (put object component, stream)) call) object bytes rest
        answer (put object component) := by
  intro stream steady held
  obtain ⟨left, ran, advances⟩ := takes stream steady held
  exact ⟨left, within_eq_ok_iff.mpr ⟨(component, left), ran, rfl⟩, advances⟩

theorem readPart [Fragment τ] {view : σ → τ} {put : σ → τ → σ} {component : τ}
    (takes : Takes Fragment.read (view object) bytes rest count component) :
    Takes (readPart view put) object bytes rest count (put object component) :=
  part takes

end Takes

/-- A component that takes exactly some bytes can be read from them alone. -/
theorem readInside_of_takes [Fragment τ] {view : σ → τ} {put : σ → τ → σ} {component : τ}
    (takes : Takes Fragment.read (view object) bytes [] count component) :
    readInside view put bytes object = .ok count (put object component) := by
  obtain ⟨left, ran, -⟩ := takes (Stream.ofBytes bytes) (Stream.steady_ofBytes bytes) (by simp)
  rw [readInside, ran]

theorem readInside_eq_ok_iff [Fragment τ] {view : σ → τ} {put : σ → τ → σ} :
    readInside view put bytes object = .ok count changed ↔
      ∃ component left, Fragment.read (view object, Stream.ofBytes bytes) =
        .ok count (component, left) ∧ put object component = changed := by
  rw [readInside]
  cases ran : Fragment.read (view object, Stream.ofBytes bytes) with
  | ok number pair => simp [Prod.ext_iff, and_assoc]
  | error failure pair => simp

theorem peek_sound (steady : stream.Steady) (ran : Stream.peek count stream = .ok bytes left) :
    bytes = stream.unread.take count ∧ stream.Advances left [] :=
  (Serves.peek count stream.unread).sound steady rfl ran

theorem isExhausted_sound {empty : Bool} (steady : stream.Steady)
    (ran : Stream.isExhausted stream = .ok empty left) :
    empty = stream.unread.isEmpty ∧ stream.Advances left [] :=
  (Serves.isExhausted stream.unread).sound steady rfl ran

theorem readToEnd_sound (steady : stream.Steady) (ran : Stream.readToEnd stream = .ok bytes left) :
    bytes = stream.unread ∧ stream.Advances left bytes := by
  obtain ⟨rfl, advances⟩ :=
    (Serves.readToEnd stream.unread).sound steady (List.append_nil _).symm ran
  exact ⟨rfl, advances⟩

theorem readUpTo_sound (steady : stream.Steady)
    (ran : Stream.readUpTo count stream = .ok bytes left) :
    bytes = stream.unread.take count ∧ stream.Advances left bytes := by
  obtain ⟨after, same, advances⟩ := Stream.readUpTo_steady count steady
  rw [ran] at same
  obtain ⟨rfl, rfl⟩ : bytes = stream.unread.take count ∧ left = after := by simpa using same
  exact ⟨rfl, advances⟩

theorem takeExactly_sound {field : LengthField} (steady : stream.Steady)
    (ran : takeExactly size field stream = .ok bytes left) :
    bytes.length = size ∧ stream.Advances left bytes := by
  simp only [takeExactly, bind_eq_ok_iff, ask_eq_ok_iff, require_eq_ok_iff, pure_eq_ok_iff] at ran
  obtain ⟨taken, between, read, _, _, ⟨exact, rfl⟩, rfl, rfl⟩ := ran
  exact ⟨exact, (readUpTo_sound steady read).2⟩

end SecureBoot.Edit

namespace SecureBoot.Buffer

open Edit (Takes Serves)

variable {buffer changed blank : Buffer} {bytes rest : Bytes} {stream left : Stream} {count limit : Nat}

theorem appendFrom_eq_ok_iff {call : Edit Stream Bytes} :
    appendFrom call (buffer, stream) = .ok count (changed, left) ↔
      ∃ taken, call stream = .ok taken left ∧ count = taken.length ∧
        buffer.append taken = .ok changed := by
  simp only [appendFrom, Edit.bind_eq_ok_iff, Prod.exists, Edit.fromStream_eq_ok_iff,
    Edit.onObject_eq_ok_iff, Edit.change_eq_ok_iff, Edit.pure_eq_ok_iff, Prod.mk.injEq]
  constructor
  · rintro ⟨taken, _, _, ⟨read, rfl⟩, _, _, _, ⟨grown, rfl⟩, rfl, rfl, rfl⟩
    exact ⟨taken, read, rfl, grown⟩
  · rintro ⟨taken, read, rfl, grown⟩
    exact ⟨taken, buffer, left, ⟨read, rfl⟩, (), changed, left, ⟨grown, rfl⟩, rfl, rfl, rfl⟩

theorem fill_unbounded (unbounded : buffer.limit = none) :
    fill (buffer, stream) = appendFrom Stream.readToEnd (buffer, stream) := by
  rw [fill, Edit.bind_of_ok (Edit.get_eq_ok_iff.mpr ⟨rfl, rfl⟩)]
  simp only [unbounded]

theorem fill_full (bounded : buffer.limit = some limit) (reached : limit ≤ buffer.size) :
    fill (buffer, stream) = .ok 0 (buffer, stream) := by
  rw [fill, Edit.bind_of_ok (Edit.get_eq_ok_iff.mpr ⟨rfl, rfl⟩)]
  simp only [bounded, if_pos reached]
  rfl

theorem fill_bounded (bounded : buffer.limit = some limit) (room : ¬limit ≤ buffer.size) :
    fill (buffer, stream) = appendFrom (Stream.readUpTo (limit - buffer.size)) (buffer, stream) := by
  rw [fill, Edit.bind_of_ok (Edit.get_eq_ok_iff.mpr ⟨rfl, rfl⟩)]
  simp only [bounded, if_neg room]

/-- Reading is filling, and the check of a buffer that is complete then. -/
theorem read_eq_ok_iff :
    read (buffer, stream) = .ok count (changed, left) ↔
      fill (buffer, stream) = .ok count (changed, left) ∧
        (changed.isComplete = true → changed.validate = .ok ()) := by
  have checks (filled : Buffer) (between : Stream) (first : Nat) :
      (do
        if filled.isComplete then
          Edit.onObject (Edit.ask validate)
        return first : Edit (Buffer × Stream) Nat) (filled, between) = .ok count (changed, left) ↔
        (first = count ∧ filled = changed ∧ between = left) ∧
          (filled.isComplete = true → filled.validate = .ok ()) := by
    by_cases complete : filled.isComplete = true
    · simp only [complete, if_true, Edit.bind_eq_ok_iff, Prod.exists, Edit.onObject_eq_ok_iff,
        Edit.ask_eq_ok_iff, Edit.pure_eq_ok_iff, Prod.mk.injEq, forall_const]
      constructor
      · rintro ⟨_, _, _, ⟨⟨valid, rfl⟩, rfl⟩, rfl, rfl, rfl⟩
        exact ⟨⟨rfl, rfl, rfl⟩, valid⟩
      · rintro ⟨⟨rfl, rfl, rfl⟩, valid⟩
        exact ⟨(), filled, between, ⟨⟨valid, rfl⟩, rfl⟩, rfl, rfl, rfl⟩
    · simp only [complete, Bool.false_eq_true, if_false, false_implies, and_true,
        Edit.pure_eq_ok_iff, Prod.mk.injEq]
  simp only [read, Edit.bind_eq_ok_iff, Edit.get_eq_ok_iff]
  constructor
  · rintro ⟨first, ⟨filled, between⟩, fills, _, _, ⟨rfl, rfl⟩, ran⟩
    obtain ⟨⟨rfl, rfl, rfl⟩, valid⟩ := (checks filled between first).mp ran
    exact ⟨fills, valid⟩
  · rintro ⟨fills, valid⟩
    exact ⟨count, (changed, left), fills, _, _, ⟨rfl, rfl⟩,
      (checks changed left count).mpr ⟨⟨rfl, rfl, rfl⟩, valid⟩⟩

private theorem takes_appendFrom {call : Edit Stream Bytes} (serves : Serves call bytes rest bytes)
    (grown : buffer.append bytes = .ok changed) :
    Takes (appendFrom call) buffer bytes rest bytes.length changed := by
  have grows : Takes (Edit.onObject (Edit.change (·.append bytes))) buffer [] rest () changed :=
    .onObject (Edit.change_of_ok grown) rest
  exact .last (.fromStream serves buffer) (.look grows (.pure bytes.length changed rest))

/-- A bounded buffer takes exactly the bytes it has room for. -/
theorem takes_fill (bounded : buffer.limit = some limit)
    (exact : buffer.size + bytes.length = limit) (grown : buffer.append bytes = .ok changed) :
    Takes fill buffer bytes rest bytes.length changed := by
  refine .get_bind fun stream _ => ?_
  simp only [bounded]
  by_cases full : limit ≤ buffer.size
  · have none : bytes = [] := List.eq_nil_of_length_eq_zero (by omega)
    subst none
    obtain ⟨-, rfl⟩ := append_eq_ok_iff.mp grown
    rw [if_pos full, List.append_nil]
    exact .pure 0 buffer rest
  · rw [if_neg full]
    exact takes_appendFrom (.readUpTo (by omega)) grown

/-- A buffer without a limit takes everything. -/
theorem takes_fill_all (unbounded : buffer.limit = none) (grown : buffer.append bytes = .ok changed) :
    Takes fill buffer bytes [] bytes.length changed := by
  refine .get_bind fun stream _ => ?_
  simp only [unbounded]
  exact takes_appendFrom (.readToEnd bytes) grown

theorem isComplete_iff :
    buffer.isComplete = true ↔ ∀ most, buffer.limit = some most → most ≤ buffer.size := by
  rw [isComplete]
  cases buffer.limit <;> simp

/-- Filling appends what it takes; a buffer that is not complete has taken all there was. -/
theorem fill_sound (follows : buffer.Follows blank) (steady : stream.Steady)
    (ran : fill (buffer, stream) = .ok count (changed, left)) :
    ∃ taken, stream.Advances left taken ∧ count = taken.length ∧
      changed.bytes = buffer.bytes ++ taken ∧ changed.Follows blank ∧
      (changed.isComplete = true ∨ left.unread = []) := by
  have appended {taken : Bytes} (grown : buffer.append taken = .ok changed) :
      changed.bytes = buffer.bytes ++ taken ∧ changed.Follows blank :=
    ⟨by rw [← (append_eq_ok_iff.mp grown).2], follows.append grown⟩
  cases limited : buffer.limit with
  | none =>
    rw [fill_unbounded limited] at ran
    obtain ⟨taken, read, counted, grown⟩ := appendFrom_eq_ok_iff.mp ran
    obtain ⟨longer, again⟩ := appended grown
    refine ⟨taken, (Edit.readToEnd_sound steady read).2, counted, longer, again, .inl ?_⟩
    simp [isComplete_iff, again.limit, ← follows.limit, limited]
  | some limit =>
    by_cases full : limit ≤ buffer.size
    · obtain ⟨rfl, rfl, rfl⟩ : 0 = count ∧ buffer = changed ∧ stream = left := by
        simpa [fill_full limited full] using ran
      refine ⟨[], .refl steady, rfl, (List.append_nil _).symm, follows, .inl ?_⟩
      simpa [isComplete_iff, limited] using full
    · rw [fill_bounded limited full] at ran
      obtain ⟨taken, read, counted, grown⟩ := appendFrom_eq_ok_iff.mp ran
      obtain ⟨longer, again⟩ := appended grown
      obtain ⟨rfl, advances⟩ := Edit.readUpTo_sound steady read
      refine ⟨_, advances, counted, longer, again, ?_⟩
      by_cases enough : limit - buffer.size ≤ stream.unread.length
      · left
        have exact := congrArg List.length longer
        rw [List.length_append, List.length_take, Nat.min_eq_left enough] at exact
        simp only [isComplete_iff, again.limit, ← follows.limit, limited, Option.some.injEq,
          forall_eq', size] at exact full ⊢
        omega
      · right
        have all : stream.unread.take (limit - buffer.size) = stream.unread :=
          List.take_of_length_le (by omega)
        rw [all] at advances
        exact advances.unread_eq (List.append_nil _).symm

/-- A buffer that becomes complete and valid is read as it was written. -/
theorem takes_read (bounded : buffer.limit = some limit)
    (exact : buffer.size + bytes.length = limit) (grown : buffer.append bytes = .ok changed)
    (valid : changed.validate = .ok ()) : Takes read buffer bytes rest bytes.length changed := by
  refine .last (takes_fill bounded exact grown) (.get_bind fun stream _ => ?_)
  by_cases complete : changed.isComplete = true
  · simp only [complete, if_true]
    have checked : Takes (Edit.onObject (Edit.ask validate)) changed [] rest () changed := by
      refine .onObject ?_ rest
      rw [Edit.ask_eq_ok_iff]
      exact ⟨valid, rfl⟩
    exact .look checked (.pure bytes.length changed rest)
  · simp only [complete]
    exact .pure bytes.length changed rest

/-- A full and valid buffer is read back into a blank one. -/
theorem Follows.takes_read (follows : buffer.Follows blank) (unfilled : blank.bytes = [])
    (bounded : blank.limit = some buffer.size) (valid : buffer.validate = .ok ()) (rest : Bytes) :
    Takes read blank buffer.bytes rest buffer.size buffer :=
  Buffer.takes_read bounded (by rw [size, size, unfilled, List.length_nil, Nat.zero_add])
    (follows.append_blank unfilled) valid

theorem read_sound (follows : buffer.Follows blank) (steady : stream.Steady)
    (ran : read (buffer, stream) = .ok count (changed, left)) :
    ∃ taken, stream.Advances left taken ∧ count = taken.length ∧
      changed.bytes = buffer.bytes ++ taken ∧ changed.Follows blank ∧
      (changed.isComplete = true ∧ changed.validate = .ok () ∨ left.unread = []) := by
  obtain ⟨ranFill, valid⟩ := read_eq_ok_iff.mp ran
  obtain ⟨taken, advances, counted, longer, again, ended⟩ := fill_sound follows steady ranFill
  exact ⟨taken, advances, counted, longer, again,
    ended.imp_left fun complete => ⟨complete, valid complete⟩⟩

end SecureBoot.Buffer

namespace SecureBoot.Buffered

open Edit (Takes)

/-- A full and valid object that is one buffer is read back into a blank one. -/
theorem takes_read {α : Type} [Buffered α] {object blank : α}
    (follows : (buffer object).Follows (buffer blank)) (unfilled : (buffer blank).bytes = [])
    (bounded : (buffer blank).limit = some (buffer object).size)
    (put : withBuffer blank (buffer object) = object) (valid : check object = .ok ())
    (rest : Bytes) :
    Takes read blank (buffer object).bytes rest (buffer object).size object := by
  have filled : Takes Buffer.fill (buffer blank) (buffer object).bytes rest (buffer object).size
      (buffer object) :=
    Buffer.takes_fill bounded (by rw [Buffer.size, unfilled, List.length_nil, Nat.zero_add]; rfl)
      (follows.append_blank unfilled)
  have filledIn : Takes (Edit.within (fun pair => (buffer pair.1, pair.2))
      (fun pair changed => (withBuffer pair.1 changed.1, changed.2)) Buffer.fill) blank
        (buffer object).bytes rest (buffer object).size (withBuffer blank (buffer object)) :=
    .part filled
  rw [put] at filledIn
  have complete : (buffer object).isComplete = true := by
    refine Buffer.isComplete_iff.mpr fun most limited => ?_
    rw [follows.limit, bounded] at limited
    exact Nat.le_of_eq (Option.some.inj limited).symm
  refine .last filledIn (.get_bind fun stream _ => ?_)
  simp only [complete, if_true]
  exact .look (.check valid _) (.pure _ object rest)

/-- Reading appends what it takes, and an object that is complete then was checked. -/
theorem read_sound {α : Type} [Buffered α] {object changed : α} {blank : Buffer}
    {stream left : Stream} {count : Nat} (follows : (buffer object).Follows blank)
    (put : ∀ other, buffer (withBuffer object other) = other) (steady : stream.Steady)
    (ran : read (object, stream) = .ok count (changed, left)) :
    ∃ taken, stream.Advances left taken ∧ count = taken.length ∧
      (buffer changed).bytes = (buffer object).bytes ++ taken ∧ (buffer changed).Follows blank ∧
      ((buffer changed).isComplete = true → check changed = .ok ()) := by
  simp only [read, Edit.bind_eq_ok_iff, Edit.get_eq_ok_iff, Edit.within_eq_ok_iff] at ran
  obtain ⟨_, _, ⟨⟨filled, between⟩, ranFill, rfl⟩, _, _, ⟨rfl, rfl⟩, ran⟩ := ran
  obtain ⟨taken, advances, counted, longer, again, -⟩ := Buffer.fill_sound follows steady ranFill
  rw [put] at ran
  by_cases complete : filled.isComplete = true
  · simp only [complete, if_true, Edit.bind_eq_ok_iff, Prod.exists, Edit.onObject_eq_ok_iff,
      Edit.ask_eq_ok_iff, Edit.pure_eq_ok_iff, Prod.mk.injEq] at ran
    obtain ⟨_, _, _, ⟨⟨valid, rfl⟩, rfl⟩, rfl, rfl, rfl⟩ := ran
    rw [put]
    exact ⟨taken, advances, counted, longer, again, fun _ => valid⟩
  · simp only [if_neg complete, Edit.pure_eq_ok_iff, Prod.mk.injEq] at ran
    obtain ⟨rfl, rfl, rfl⟩ := ran
    rw [put]
    exact ⟨taken, advances, counted, longer, again, fun whole => absurd whole complete⟩

end SecureBoot.Buffered
