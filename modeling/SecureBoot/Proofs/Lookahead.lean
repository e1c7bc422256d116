import Mathlib.Data.List.Infix
import SecureBoot.Proofs.Cursor
import SecureBoot.Proofs.Keeping

/-!
What a stream keeps when its source fails. A failing look-ahead or bounded read loses nothing: what
came before the failure stands in the look-ahead, from where the next read takes it. Reading to the
end takes the look-ahead away first; if that fails, whatever the caller had been shown is gone.
-/

namespace SecureBoot

/-- Whatever makes the reads stop, what was drawn and what is left are what there was, and the end
is reported only if nothing is left. -/
theorem Source.draw_append {finish : SourceEnd} {wanted : Nat} {deliveries left : List Delivery}
    {bytes : Bytes} {stop : Stop} (drawn : draw finish wanted deliveries = (bytes, left, stop)) :
    bytes ++ bytesOf left = bytesOf deliveries ∧ (stop = .exhausted → left = []) := by
  fun_induction draw finish wanted deliveries generalizing bytes left stop with
  | case1 deliveries =>
    obtain ⟨rfl, rfl, rfl⟩ : [] = bytes ∧ deliveries = left ∧ .satisfied = stop := by
      simpa using drawn
    simp
  | case2 | case3 =>
    obtain ⟨rfl, rfl, rfl⟩ : [] = bytes ∧ [] = left ∧ _ = stop := by simpa using drawn
    simp
  | case4 wanted rest ih => exact ih drawn
  | case5 wanted rest =>
    obtain ⟨rfl, rfl, rfl⟩ : [] = bytes ∧ rest = left ∧ .failed = stop := by simpa using drawn
    simp [bytesOf]
  | case6 wanted piece rest longer =>
    obtain ⟨rfl, rfl, rfl⟩ : piece.take (wanted + 1) = bytes ∧
        .piece (piece.drop (wanted + 1)) :: rest = left ∧ .satisfied = stop := by
      simpa using drawn
    simp [bytesOf, ← List.append_assoc]
  | case7 wanted piece rest longer more behind reason drawnOn ih =>
    obtain ⟨rfl, rfl, rfl⟩ : piece ++ more = bytes ∧ behind = left ∧ reason = stop := by
      simpa using drawn
    obtain ⟨whole, ended⟩ := ih drawnOn
    exact ⟨by rw [List.append_assoc, whole, bytesOf], ended⟩

namespace Stream

variable {stream filled left : Stream} {bytes : Bytes} {wanted count : Nat} {failure : Failure}

/-- The one stream has looked further ahead than the other, if at all, and lost nothing. -/
structure Ahead (before after : Stream) : Prop where
  lookahead : before.lookahead <+: after.lookahead
  position : after.position = before.position
  unread : after.unread = before.unread

theorem Ahead.refl (stream : Stream) : stream.Ahead stream :=
  ⟨List.prefix_rfl, rfl, rfl⟩

/-- However it ends, filling the look-ahead only looks ahead. -/
theorem ahead_fill (wanted : Nat) (stream : Stream) :
    stream.Ahead ((fill wanted).after stream) := by
  obtain ⟨⟨deliveries, finish⟩, lookahead, exhausted, position⟩ := stream
  cases exhausted with
  | true => exact .refl _
  | false =>
    obtain ⟨⟨bytes, rest, stop⟩, drawn⟩ :
        ∃ outcome, Source.draw finish (wanted - lookahead.length) deliveries = outcome := ⟨_, rfl⟩
    obtain ⟨whole, ended⟩ := Source.draw_append drawn
    cases stop with
    | satisfied | failed =>
      simp only [Edit.after, fill, drawn, Bool.false_eq_true, if_false]
      exact ⟨List.prefix_append _ _, rfl, by simp [unread, ← whole]⟩
    | exhausted =>
      obtain rfl : rest = [] := ended rfl
      simp only [Edit.after, fill, drawn, Bool.false_eq_true, if_false]
      exact ⟨List.prefix_append _ _, rfl, by simp [unread, ← whole, Source.bytesOf]⟩

theorem ahead_of_fill (ran : fill wanted stream = .ok () filled) : stream.Ahead filled := by
  have ahead := ahead_fill wanted stream
  rwa [Edit.after, ran] at ahead

theorem ahead_of_fill_error (failed : fill wanted stream = .error failure left) :
    stream.Ahead left := by
  have ahead := ahead_fill wanted stream
  rwa [Edit.after, failed] at ahead

/-- Nothing is drawn for bytes that are looked at already. -/
theorem fill_of_le (enough : wanted ≤ stream.lookahead.length) :
    fill wanted stream = .ok () stream := by
  obtain ⟨⟨deliveries, finish⟩, lookahead, exhausted, position⟩ := stream
  cases exhausted <;> simp [fill, Nat.sub_eq_zero_of_le enough, Source.draw]

/-- A source that is left as it was has given nothing. -/
theorem lookahead_of_source (ran : fill wanted stream = .ok () filled)
    (same : filled.source = stream.source) : filled.lookahead = stream.lookahead := by
  obtain ⟨⟨deliveries, finish⟩, lookahead, exhausted, position⟩ := stream
  cases exhausted with
  | true =>
    obtain rfl : _ = filled := by simpa [fill] using ran
    rfl
  | false =>
    obtain ⟨⟨bytes, rest, stop⟩, drawn⟩ :
        ∃ outcome, Source.draw finish (wanted - lookahead.length) deliveries = outcome := ⟨_, rfl⟩
    obtain ⟨whole, -⟩ := Source.draw_append drawn
    have nothing (unchanged : rest = deliveries) : bytes = [] := by
      rw [unchanged] at whole
      exact List.append_left_eq_self.mp whole
    cases stop <;>
      simp only [fill, drawn, Bool.false_eq_true, if_false, EStateM.Result.ok.injEq, true_and,
        reduceCtorEq] at ran
    all_goals
      subst ran
      simp [nothing (congrArg Source.deliveries same)]

theorem peek_eq_ok_iff :
    peek count stream = .ok bytes left ↔
      fill count stream = .ok () left ∧ left.lookahead.take count = bytes := by
  simp only [peek, Edit.bind_eq_ok_iff, Edit.get_eq_ok_iff, Edit.pure_eq_ok_iff]
  constructor
  · rintro ⟨_, _, ran, _, _, ⟨rfl, rfl⟩, rfl, rfl⟩
    exact ⟨ran, rfl⟩
  · rintro ⟨ran, rfl⟩
    exact ⟨(), left, ran, left, left, ⟨rfl, rfl⟩, rfl, rfl⟩

theorem readUpTo_eq_ok_iff :
    readUpTo count stream = .ok bytes left ↔
      ∃ filled, fill count stream = .ok () filled ∧ filled.lookahead.take count = bytes ∧
        { filled with
          lookahead := filled.lookahead.drop count
          position := filled.position + bytes.length } = left := by
  simp only [readUpTo, Edit.bind_eq_ok_iff, Edit.get_eq_ok_iff, Edit.set_eq_ok_iff,
    Edit.pure_eq_ok_iff]
  constructor
  · rintro ⟨_, filled, ran, _, _, ⟨rfl, rfl⟩, _, _, rfl, rfl, rfl⟩
    exact ⟨filled, ran, rfl, rfl⟩
  · rintro ⟨filled, ran, rfl, rfl⟩
    exact ⟨(), filled, ran, filled, filled, ⟨rfl, rfl⟩, (), _, rfl, rfl, rfl⟩

theorem peek_eq_error_iff :
    peek count stream = .error failure left ↔ fill count stream = .error failure left :=
  Edit.bind_eq_error_iff fun _ between => ⟨between.lookahead.take count, between, rfl⟩

theorem readUpTo_eq_error_iff :
    readUpTo count stream = .error failure left ↔ fill count stream = .error failure left :=
  Edit.bind_eq_error_iff fun _ between => ⟨between.lookahead.take count, _, rfl⟩

theorem isExhausted_eq_error_iff :
    isExhausted stream = .error failure left ↔ fill 1 stream = .error failure left := by
  refine Iff.trans ?_ peek_eq_error_iff
  exact Edit.bind_eq_error_iff fun bytes between => ⟨bytes.isEmpty, between, rfl⟩

/-- Reading to the end has taken the look-ahead away when it fails. -/
theorem readToEnd_error (failed : readToEnd stream = .error failure left) :
    left.lookahead = [] ∧ left.position = stream.position := by
  obtain ⟨⟨deliveries, finish⟩, lookahead, exhausted, position⟩ := stream
  cases exhausted with
  | true => simp [readToEnd] at failed
  | false =>
    obtain ⟨⟨bytes, rest, stop⟩, drawn⟩ : ∃ outcome,
        Source.draw finish ((Source.bytesOf deliveries).length + 1) deliveries = outcome := ⟨_, rfl⟩
    cases stop <;>
      simp only [readToEnd, drawn, Bool.false_eq_true, if_false, EStateM.Result.error.injEq,
        reduceCtorEq] at failed
    obtain ⟨-, rfl⟩ := failed
    exact ⟨rfl, rfl⟩

/-- Every call that fails leaves the position where it is, and every one but reading to the end has
only looked ahead. -/
theorem Call.onStream_error {call : Call} (failed : call.onStream stream = .error failure left) :
    left.position = stream.position ∧ (call ≠ .readToEnd → stream.Ahead left) := by
  have looked (wanted : Nat) (failed : fill wanted stream = .error failure left) :
      left.position = stream.position ∧ (call ≠ .readToEnd → stream.Ahead left) := by
    have ahead := ahead_of_fill_error failed
    exact ⟨ahead.position, fun _ => ahead⟩
  cases call with
  | peek count => exact looked count (peek_eq_error_iff.mp (Edit.map_eq_error_iff.mp failed))
  | readUpTo count =>
    exact looked count (readUpTo_eq_error_iff.mp (Edit.map_eq_error_iff.mp failed))
  | readToEnd =>
    obtain ⟨-, stays⟩ := readToEnd_error (Edit.map_eq_error_iff.mp failed)
    exact ⟨stays, fun other => absurd rfl other⟩
  | isExhausted => exact looked 1 (isExhausted_eq_error_iff.mp (Edit.map_eq_error_iff.mp failed))
  | position => exact nomatch failed

/-- The stream hands the bytes out at the next read of that many, and its source is not asked. -/
def Offers (stream : Stream) (bytes : Bytes) : Prop :=
  ∃ left, readUpTo bytes.length stream = .ok bytes left ∧ left.source = stream.source

theorem offers_iff : stream.Offers bytes ↔ bytes <+: stream.lookahead := by
  constructor
  · rintro ⟨left, ran, same⟩
    obtain ⟨filled, fills, front, rfl⟩ := readUpTo_eq_ok_iff.mp ran
    rw [lookahead_of_source fills same] at front
    exact front ▸ List.take_prefix _ _
  · intro front
    refine ⟨_, readUpTo_eq_ok_iff.mpr ⟨stream, fill_of_le front.length_le, ?_, rfl⟩, rfl⟩
    exact (List.prefix_iff_eq_take.mp front).symm

/-- The bytes a caller has seen and not consumed, after a call has answered. -/
def Call.seen (before : Bytes) : Call → Answer → Bytes
  | peek _, .bytes bytes => if before.length ≤ bytes.length then bytes else before
  | readUpTo _, .bytes bytes => before.drop bytes.length
  | readToEnd, _ => []
  | _, _ => before

/-- A stream, and the bytes that its caller has seen and not consumed. -/
structure Watched where
  stream : Stream
  seen : Bytes

namespace Watched

variable {watched : Watched} {call : Call} {answer : Answer}

/-- What a call leaves, whether it fails or not. -/
def after (watched : Watched) (call : Call) : Watched :=
  match call.onStream watched.stream with
  | .ok answer left => ⟨left, call.seen watched.seen answer⟩
  | .error _ left => ⟨left, watched.seen⟩

/-- What is left of a new stream over the source after calls one after the other. -/
def run (source : Source) (calls : List Call) : Watched :=
  calls.foldl after ⟨ofSource source, []⟩

/-- What the caller has seen stands in the look-ahead. -/
def Held (watched : Watched) : Prop :=
  watched.seen <+: watched.stream.lookahead

/-- An answer leaves what the caller has seen in the look-ahead. -/
theorem Held.answered (held : watched.Held)
    (ran : call.onStream watched.stream = .ok answer left) :
    (⟨left, call.seen watched.seen answer⟩ : Watched).Held := by
  cases call with
  | peek count =>
    obtain ⟨bytes, peeks, rfl⟩ := Edit.map_eq_ok_iff.mp ran
    obtain ⟨fills, rfl⟩ := peek_eq_ok_iff.mp peeks
    show (if _ then _ else _) <+: left.lookahead
    split
    · exact List.take_prefix _ _
    · exact held.trans (ahead_of_fill fills).lookahead
  | readUpTo count =>
    obtain ⟨bytes, reads, rfl⟩ := Edit.map_eq_ok_iff.mp ran
    obtain ⟨filled, fills, rfl, rfl⟩ := readUpTo_eq_ok_iff.mp reads
    have front : watched.seen <+: filled.lookahead :=
      held.trans (ahead_of_fill fills).lookahead
    have same : filled.lookahead.drop (filled.lookahead.take count).length =
        filled.lookahead.drop count := by
      rw [List.drop_eq_drop_iff, List.length_take]
      omega
    exact same ▸ List.IsPrefix.drop front _
  | readToEnd => exact List.nil_prefix
  | isExhausted =>
    obtain ⟨empty, looks, rfl⟩ := Edit.map_eq_ok_iff.mp ran
    simp only [isExhausted, Edit.bind_eq_ok_iff, Edit.pure_eq_ok_iff] at looks
    obtain ⟨_, _, peeks, -, rfl⟩ := looks
    exact held.trans (ahead_of_fill (peek_eq_ok_iff.mp peeks).1).lookahead
  | position =>
    obtain ⟨same, -⟩ : watched.stream = left ∧ _ := by
      simpa [Call.onStream, Edit.map_eq_ok_iff] using ran
    exact same ▸ held

/-- A failure leaves it there too, unless it is one of reading to the end. -/
theorem Held.failed (held : watched.Held)
    (failed : call.onStream watched.stream = .error failure left)
    (kept : call = .readToEnd → watched.seen = []) : watched.seen <+: left.lookahead := by
  by_cases drains : call = .readToEnd
  · rw [kept drains]
    exact List.nil_prefix
  · exact held.trans ((Call.onStream_error failed).2 drains).lookahead

theorem run_append (source : Source) (passed : List Call) (call : Call) :
    run source (passed ++ [call]) = (run source passed).after call := by
  rw [run, List.foldl_append]
  rfl

/-- If no failure takes from the caller what it has seen, the stream has it after every call. -/
theorem held_run (source : Source) (calls : List Call)
    (kept : ∀ passed failure left, passed ++ [.readToEnd] <+: calls →
      readToEnd (run source passed).stream = .error failure left → (run source passed).seen = []) :
    (run source calls).Held := by
  induction calls using List.reverseRecOn with
  | nil => exact List.nil_prefix
  | append_singleton calls call ih =>
    have held : (run source calls).Held := ih fun passed failure left before =>
      kept passed failure left (before.trans (List.prefix_append _ _))
    rw [run_append, after]
    split
    next answer left ran => exact held.answered ran
    next failure left failed =>
      refine held.failed failed fun drains => ?_
      subst drains
      exact kept calls failure left List.prefix_rfl (Edit.map_eq_error_iff.mp failed)

end Watched

/-- After the calls that have passed the next one fails, and the stream is left behind. -/
def FailsAt (source : Source) (calls passed : List Call) (call : Call) (left : Stream) : Prop :=
  passed ++ [call] <+: calls ∧
    ∃ failure, call.onStream (Watched.run source passed).stream = .error failure left

/-- Whatever the source does and whatever is called on a stream over it, a call that fails leaves the
position where it was, and unless it is one of reading to the end no byte is lost. What the caller
has seen and not consumed is handed out by the next read after every failure, just if no call of
reading to the end fails while there is any of it. -/
theorem failing_calls_keep_iff (source : Source) (calls : List Call) :
    (∀ passed call left, FailsAt source calls passed call left →
      left.position = (Watched.run source passed).stream.position ∧
        (call ≠ .readToEnd → left.unread = (Watched.run source passed).stream.unread)) ∧
    ((∀ passed call left, FailsAt source calls passed call left →
        left.Offers (Watched.run source passed).seen) ↔
      ∀ passed left, FailsAt source calls passed .readToEnd left →
        (Watched.run source passed).seen = []) := by
  refine ⟨?_, ?_, ?_⟩
  · rintro passed call left ⟨-, failure, failed⟩
    obtain ⟨stays, ahead⟩ := Call.onStream_error failed
    exact ⟨stays, fun other => (ahead other).unread⟩
  · intro offered passed left fails
    have front := offers_iff.mp (offered passed .readToEnd left fails)
    obtain ⟨-, failure, failed⟩ := fails
    obtain ⟨gone, -⟩ := readToEnd_error (Edit.map_eq_error_iff.mp failed)
    rw [gone] at front
    exact List.prefix_nil.mp front
  · rintro kept passed call left ⟨reached, failure, failed⟩
    have held : (Watched.run source passed).Held := by
      refine Watched.held_run source passed fun before failure left earlier drains => ?_
      refine kept before left ⟨?_, failure, Edit.map_eq_error_iff.mpr drains⟩
      exact earlier.trans ((List.prefix_append _ _).trans reached)
    refine offers_iff.mpr (held.failed failed fun drains => ?_)
    subst drains
    exact kept passed left ⟨reached, failure, failed⟩

/-- Two bytes are looked at, reading to the end fails, and both are gone. -/
theorem readToEnd_loses_seen :
    ∃ left, FailsAt ⟨[.piece [1, 2, 3, 4]], .failing⟩ [.peek 2, .readToEnd] [.peek 2] .readToEnd left ∧
      (Watched.run ⟨[.piece [1, 2, 3, 4]], .failing⟩ [.peek 2]).seen = [1, 2] ∧
      ¬left.Offers [1, 2] ∧ ∀ bytes after, readUpTo 2 left ≠ .ok bytes after := by
  refine ⟨⟨⟨[], .failing⟩, [], false, 0⟩, ⟨List.prefix_rfl, .inputOutput, rfl⟩, rfl, ?_, ?_⟩
  · rw [offers_iff]
    decide
  · intro bytes after read
    exact nomatch read

end Stream
end SecureBoot
