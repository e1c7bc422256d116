import SecureBoot.Proofs.Lookahead
import SecureBoot.Proofs.Resuming

/-!
Sequences whose bounds are kept. What is appended to a sequence, put into one or created by reading
is checked against the bounds of the sequence. The buffers that are there when a sequence is read
take what their own limits admit, and nothing compares that with the bounds; so the bounds are kept
just if these buffers do not outgrow them.
-/

namespace SecureBoot

/-- The reads are satisfied only with as many bytes as were wanted. -/
theorem Source.draw_satisfied {finish : SourceEnd} {wanted : Nat} {deliveries left : List Delivery}
    {bytes : Bytes} (drawn : draw finish wanted deliveries = (bytes, left, .satisfied)) :
    bytes.length = wanted := by
  fun_induction draw finish wanted deliveries generalizing bytes left with
  | case1 deliveries =>
    obtain ⟨rfl, -⟩ : [] = bytes ∧ deliveries = left := by simpa using drawn
    rfl
  | case2 | case3 | case5 => simp at drawn
  | case4 wanted rest ih => exact ih drawn
  | case6 wanted piece rest longer =>
    obtain ⟨rfl, -⟩ : piece.take (wanted + 1) = bytes ∧ _ = left := by simpa using drawn
    rw [List.length_take]
    omega
  | case7 wanted piece rest longer more behind reason drawnOn ih =>
    obtain ⟨rfl, rfl, rfl⟩ : piece ++ more = bytes ∧ behind = left ∧ reason = .satisfied := by
      simpa using drawn
    rw [List.length_append, ih drawnOn]
    omega

namespace Stream

variable {stream filled left : Stream} {bytes : Bytes} {wanted count : Nat}

/-- The stream has come to its end, and nothing it looked at is left. -/
structure Ended (stream : Stream) : Prop where
  exhausted : stream.exhausted = true
  lookahead : stream.lookahead = []

/-- Filling the look-ahead falls short only at the end. -/
theorem enough_of_fill (ran : fill wanted stream = .ok () filled) :
    wanted ≤ filled.lookahead.length ∨ filled.exhausted = true := by
  obtain ⟨⟨deliveries, finish⟩, lookahead, exhausted, position⟩ := stream
  cases exhausted with
  | true =>
    obtain rfl : _ = filled := by simpa [fill] using ran
    exact .inr rfl
  | false =>
    obtain ⟨⟨bytes, rest, stop⟩, drawn⟩ :
        ∃ outcome, Source.draw finish (wanted - lookahead.length) deliveries = outcome := ⟨_, rfl⟩
    cases stop <;>
      simp only [fill, drawn, Bool.false_eq_true, if_false, EStateM.Result.ok.injEq, true_and,
        reduceCtorEq] at ran
    · subst ran
      have exact := Source.draw_satisfied drawn
      left
      rw [List.length_append, exact]
      omega
    · subst ran
      exact .inr rfl

/-- A bounded read takes less than it may only at the end. -/
theorem readUpTo_short (ran : readUpTo count stream = .ok bytes left) :
    bytes.length = count ∨ left.Ended := by
  obtain ⟨filled, fills, rfl, rfl⟩ := readUpTo_eq_ok_iff.mp ran
  rw [List.length_take]
  rcases enough_of_fill fills with enough | ended
  · left
    omega
  · by_cases enough : count ≤ filled.lookahead.length
    · left
      omega
    · exact .inr ⟨ended, List.drop_eq_nil_of_le (by omega)⟩

theorem ended_of_readToEnd (ran : readToEnd stream = .ok bytes left) : left.Ended := by
  unfold readToEnd at ran
  dsimp only at ran
  split at ran
  · simp at ran
  all_goals
    obtain ⟨-, rfl⟩ := EStateM.Result.ok.inj ran
    exact ⟨rfl, rfl⟩

/-- A stream that has ended is left as it is by looking at it. -/
theorem Ended.fill (ended : stream.Ended) (wanted : Nat) :
    Stream.fill wanted stream = .ok () stream := by
  simp [Stream.fill, ended.exhausted]

theorem Ended.isExhausted (ended : stream.Ended) :
    Stream.isExhausted stream = .ok true stream := by
  rw [Stream.isExhausted, Edit.bind_of_ok (peek_eq_ok_iff.mpr ⟨ended.fill 1, rfl⟩),
    ended.lookahead]
  rfl

theorem Ended.readUpTo (ended : stream.Ended) (ran : Stream.readUpTo count stream = .ok bytes left) :
    left.Ended := by
  obtain ⟨filled, fills, -, rfl⟩ := readUpTo_eq_ok_iff.mp ran
  obtain rfl : stream = filled := by simpa [ended.fill count] using fills
  exact ⟨ended.exhausted, by rw [ended.lookahead, List.drop_nil]⟩

end Stream

namespace Buffer

variable {buffer changed : Buffer} {bytes : Bytes} {stream left : Stream} {count : Nat}

/-- The largest size that reading on can give the buffer, if there is one. -/
def reach (buffer : Buffer) : Option Nat :=
  buffer.limit.map (max buffer.size)

theorem size_le_reach {most : Nat} (reached : buffer.reach = some most) : buffer.size ≤ most := by
  obtain ⟨limit, -, rfl⟩ := Option.map_eq_some_iff.mp reached
  exact Nat.le_max_left _ _

theorem reach_of_full (reached : buffer.full = true) : buffer.reach = some buffer.size := by
  obtain ⟨limit, limited, small⟩ := full_iff.mp reached
  rw [reach, limited, Option.map_some, Nat.max_eq_left small]

theorem reach_empty (limit : Option Nat) : (Buffer.empty limit).reach = limit := by
  cases limit <;> simp [reach, Buffer.empty, size]

/-- What a buffer has taken, it could take. -/
theorem reach_append (ran : buffer.append bytes = .ok changed) : changed.reach = buffer.reach := by
  obtain ⟨fits, rfl⟩ := append_eq_ok_iff.mp ran
  cases limited : buffer.limit with
  | none => simp only [reach, limited, Option.map_none]
  | some limit =>
    have bounded := fits limit limited
    simp only [reach, limited, Option.map_some, size, List.length_append] at bounded ⊢
    rw [Nat.max_eq_right bounded, Nat.max_eq_right (by omega)]

theorem keeps_reach (reached : Option Nat) :
    Edit.Keeps (Edit.First (reach · = reached)) (Fragment.read : Edit (Buffer × Stream) Nat) :=
  keeps_read fun _ => .change fun _ _ held ran => (reach_append ran).trans held

/-- A read that succeeds has come to the end of the stream or has filled the buffer, and it does not
come back from the end. -/
theorem read_settles (ran : read (buffer, stream) = .ok count (changed, left)) :
    (left.Ended ∨ changed.full = true) ∧ (stream.Ended → left.Ended) := by
  obtain ⟨filled, -⟩ := read_eq_ok_iff.mp ran
  cases limited : buffer.limit with
  | none =>
    rw [fill_unbounded limited] at filled
    obtain ⟨_, takes, -⟩ := appendFrom_eq_ok_iff.mp filled
    have ended := Stream.ended_of_readToEnd takes
    exact ⟨.inl ended, fun _ => ended⟩
  | some limit =>
    by_cases reached : limit ≤ buffer.size
    · obtain ⟨-, rfl, rfl⟩ : 0 = count ∧ buffer = changed ∧ stream = left := by
        simpa [fill_full limited reached] using filled
      exact ⟨.inr (full_iff.mpr ⟨limit, limited, reached⟩), id⟩
    · rw [fill_bounded limited reached] at filled
      obtain ⟨bytes, takes, -, grown⟩ := appendFrom_eq_ok_iff.mp filled
      refine ⟨(Stream.readUpTo_short takes).symm.imp_right fun exact => ?_,
        fun ended => ended.readUpTo takes⟩
      obtain ⟨-, rfl⟩ := append_eq_ok_iff.mp grown
      refine full_iff.mpr ⟨limit, limited, ?_⟩
      simp only [size, List.length_append] at reached exact ⊢
      omega

/-- The largest size that reading on can give buffers together, if there is one. -/
def reachAll : List Buffer → Option Nat
  | [] => some 0
  | item :: rest => do return (← item.reach) + (← reachAll rest)

variable {item : Buffer} {items others : List Buffer} {most : Nat}

theorem reachAll_cons_eq_some_iff :
    reachAll (item :: items) = some most ↔
      ∃ own, item.reach = some own ∧ ∃ more, reachAll items = some more ∧ own + more = most := by
  simp [reachAll, Option.bind_eq_some_iff]

theorem reachAll_congr (same : items.map reach = others.map reach) :
    reachAll items = reachAll others := by
  induction items generalizing others with
  | nil => rw [List.map_eq_nil_iff.mp (same.symm.trans List.map_nil)]
  | cons first rest ih =>
    cases others with
    | nil => simp at same
    | cons other more =>
      obtain ⟨here, later⟩ : first.reach = other.reach ∧ rest.map reach = more.map reach := by
        simpa using same
      rw [reachAll, reachAll, here, ih later]

theorem totalSize_le_reachAll (reached : reachAll items = some most) :
    Fragment.totalSize items ≤ most := by
  induction items generalizing most with
  | nil => exact Nat.zero_le most
  | cons first rest ih =>
    obtain ⟨own, here, more, later, rfl⟩ := reachAll_cons_eq_some_iff.mp reached
    exact Nat.add_le_add (size_le_reach here) (ih later)

theorem reachAll_of_full (reached : ∀ item ∈ items, item.full = true) :
    reachAll items = some (Fragment.totalSize items) := by
  induction items with
  | nil => rfl
  | cons first rest ih =>
    obtain ⟨here, later⟩ := List.forall_mem_cons.mp reached
    exact reachAll_cons_eq_some_iff.mpr ⟨_, reach_of_full here, _, ih later, rfl⟩

theorem reachAll_append_singleton {own : Nat} (front : reachAll items = some most)
    (last : item.reach = some own) : reachAll (items ++ [item]) = some (most + own) := by
  induction items generalizing most with
  | nil =>
    obtain rfl : 0 = most := Option.some.inj front
    exact reachAll_cons_eq_some_iff.mpr ⟨own, last, 0, rfl, Nat.add_comm own 0⟩
  | cons first rest ih =>
    obtain ⟨here, held, more, later, rfl⟩ := reachAll_cons_eq_some_iff.mp front
    exact reachAll_cons_eq_some_iff.mpr ⟨here, held, _, ih later, (Nat.add_assoc _ _ _).symm⟩

/-- If every buffer there is has been read, the stream has come to its end or they are full. -/
theorem eachWith_settles
    (ran : Edit.eachWith Fragment.read (items, stream) = .ok count (others, left)) :
    (left.Ended ∨ ∀ item ∈ others, item.full = true) ∧ (stream.Ended → left.Ended) := by
  induction items generalizing stream count others with
  | nil =>
    obtain ⟨-, rfl, rfl⟩ : 0 = count ∧ [] = others ∧ stream = left := by
      simpa [Edit.eachWith] using ran
    exact ⟨.inr (List.forall_mem_nil _), id⟩
  | cons first rest ih =>
    cases ranFirst : Fragment.read (first, stream) with
    | error failure pair => simp [Edit.eachWith, ranFirst] at ran
    | ok own pair =>
      obtain ⟨changed, between⟩ := pair
      cases ranRest : Edit.eachWith Fragment.read (rest, between) with
      | error failure pair => simp [Edit.eachWith, ranFirst, ranRest] at ran
      | ok more pair =>
        obtain ⟨later, last⟩ := pair
        obtain ⟨-, rfl, rfl⟩ : own + more = count ∧ changed :: later = others ∧ last = left := by
          simpa [Edit.eachWith, ranFirst, ranRest] using ran
        obtain ⟨settled, stays⟩ := read_settles ranFirst
        obtain ⟨settledOn, staysOn⟩ := ih ranRest
        refine ⟨?_, fun ended => staysOn (stays ended)⟩
        rcases settled with ended | here
        · exact .inl (staysOn ended)
        · exact settledOn.imp_right fun reached => List.forall_mem_cons.mpr ⟨here, reached⟩

end Buffer

namespace Sequence

open Buffer (full reach reachAll)

variable {sequence before between after start : Sequence Buffer} {stream left : Stream}
  {items : List Buffer} {item : Buffer} {count rounds : Nat}

/-- The bounds of the sequence hold. -/
structure Within (sequence : Sequence Buffer) : Prop where
  whole : ∀ most, sequence.limit = some most → sequence.totalSize ≤ most
  each : ∀ most, sequence.itemLimit = some most → ∀ item ∈ sequence.items, item.size ≤ most

theorem Within.append (within : before.Within) (ran : before.append item = .ok after) :
    after.Within := by
  obtain ⟨fits, room, rfl⟩ := append_eq_ok_iff.mp ran
  refine ⟨fun most limited => ?_, fun most limited => ?_⟩
  · have := room most limited
    simpa [totalSize, Fragment.totalSize] using this
  · exact List.forall_mem_append.mpr
      ⟨within.each most limited, List.forall_mem_singleton.mpr (fits most limited)⟩

theorem Within.extend (within : before.Within) (ran : before.extend items = .ok after) :
    after.Within := by
  obtain ⟨fit, room, rfl⟩ := extend_eq_ok_iff.mp ran
  refine ⟨fun most limited => ?_, fun most limited => ?_⟩
  · have := room most limited
    simpa [totalSize] using this
  · exact List.forall_mem_append.mpr
      ⟨within.each most limited, fun item member => fit item member most limited⟩

theorem replace_eq_ok_iff {index : Nat} {old : Buffer} :
    before.replace index item = .ok (old, after) ↔
      before.items[index]? = some old ∧
        (∀ most, before.itemLimit = some most → item.size ≤ most) ∧
        (∀ most, before.limit = some most →
          before.totalSize - old.size + item.size ≤ most) ∧
        { before with items := before.items.set index item } = after := by
  rw [replace]
  cases there : before.items[index]? with
  | none => simp
  | some other =>
    simp only [bind_eq_ok_iff, exists_unit_iff, checkItem_eq_ok_iff, checkBound_eq_ok_iff,
      pure_eq_ok_iff, Prod.mk.injEq, Option.some.injEq]
    constructor
    · rintro ⟨fits, room, rfl, rfl⟩
      exact ⟨rfl, fits, room, rfl⟩
    · rintro ⟨rfl, fits, room, rfl⟩
      exact ⟨fits, room, rfl, rfl⟩

theorem Within.replace {index : Nat} {old : Buffer} (within : before.Within)
    (ran : before.replace index item = .ok (old, after)) : after.Within := by
  obtain ⟨there, fits, room, rfl⟩ := replace_eq_ok_iff.mp ran
  refine ⟨fun most limited => ?_, fun most limited other member => ?_⟩
  · have bounded := room most limited
    have exchanged : Fragment.totalSize (before.items.set index item) + old.size =
        Fragment.totalSize before.items + item.size := Fragment.totalSize_set_add there item
    simp only [totalSize] at bounded ⊢
    omega
  · rcases List.mem_or_eq_of_mem_set member with kept | rfl
    · exact within.each most limited other kept
    · exact fits most limited

/-- The one sequence is the other with buffers added behind, and its bounds hold if those of the
other do. -/
structure Extends (before after : Sequence Buffer) : Prop where
  layout : after = { before with items := after.items }
  items : before.items <+: after.items
  within : before.Within → after.Within

theorem Extends.refl (sequence : Sequence Buffer) : sequence.Extends sequence :=
  ⟨rfl, List.prefix_rfl, id⟩

theorem Extends.trans (first : before.Extends between) (second : between.Extends after) :
    before.Extends after where
  layout := by rw [second.layout, first.layout]
  items := first.items.trans second.items
  within := second.within ∘ first.within

theorem Extends.append (ran : before.append item = .ok after) : before.Extends after := by
  refine ⟨?_, ?_, fun within => within.append ran⟩
  all_goals obtain ⟨-, -, rfl⟩ := append_eq_ok_iff.mp ran
  · rfl
  · exact List.prefix_append _ _

/-- If its bounds hold with more buffers behind, they hold without. -/
theorem Extends.within_iff (grown : before.Extends after) : after.Within ↔ before.Within := by
  refine ⟨fun within => ?_, grown.within⟩
  obtain ⟨more, same⟩ := grown.items
  have limits := grown.layout
  refine ⟨fun most limited => ?_, fun most limited item member => ?_⟩
  · have bounded := within.whole most (by rw [limits, limited])
    rw [totalSize, ← same, Fragment.totalSize_append] at bounded
    exact Nat.le_trans (Nat.le_add_right _ _) bounded
  · exact within.each most (by rw [limits, limited]) item (grown.items.mem member)

/-- A round of reading new buffers adds none, or the one that it created and read. -/
theorem readNew_after (rounds : Nat) (sequence : Sequence Buffer) (stream : Stream) :
    ((readNew (rounds + 1)).after (sequence, stream)).1 = sequence ∨
      ∃ looked count item left changed, Stream.isExhausted stream = .ok false looked ∧
        Buffer.read (Buffer.empty sequence.room, looked) = .ok count (item, left) ∧
        sequence.append item = .ok changed ∧
        (readNew (rounds + 1)).after (sequence, stream) = (readNew rounds).after (changed, left) := by
  cases few : sequence.countReached with
  | true => exact .inl (by rw [Edit.after, readNew_enough few])
  | false =>
    by_cases remains : sequence.remaining = some 0
    · exact .inl (by rw [Edit.after, readNew_filled few remains])
    cases looks : Stream.isExhausted stream with
    | error failure looked =>
      left
      have fails : Edit.fromStream Stream.isExhausted (sequence, stream) =
          .error failure (sequence, looked) := by
        simp only [Edit.fromStream, Edit.within, looks]
      rw [readNew, Edit.after_bind (Edit.get_eq_ok_iff.mpr ⟨rfl, rfl⟩)]
      simp only [few, remains, Bool.false_eq_true, if_false]
      rw [Edit.after_bind_of_error fails]
    | ok empty looked =>
      cases empty with
      | true => exact .inl (by rw [Edit.after, readNew_ended few remains looks])
      | false =>
        cases ran : Buffer.read (Buffer.empty sequence.room, looked) with
        | error failure pair =>
          left
          have fails : Edit.fromStream (Edit.readNew (Buffer.empty sequence.room))
              (sequence, looked) = .error failure (sequence, pair.2) := by
            have failed : Fragment.read (Buffer.empty sequence.room, looked) = .error failure pair :=
              ran
            simp only [Edit.fromStream, Edit.within, Edit.readNew, failed]
          rw [Edit.after, readNew_opened few remains looks, Edit.bind_of_error fails]
        | ok count pair =>
          obtain ⟨item, left⟩ := pair
          have round : readNew (rounds + 1) (sequence, stream) = _ :=
            readNew_created few remains looks ran
          by_cases nothing : count = 0
          · exact .inl (by rw [Edit.after, round, if_pos nothing]; rfl)
          rw [if_neg nothing] at round
          cases grown : sequence.append item with
          | error failure =>
            left
            have refuses : Edit.onObject (Edit.change (·.append item)) (sequence, left) =
                .error failure (sequence, left) := by
              simp only [Edit.onObject, Edit.within, Edit.change, grown]
            rw [Edit.after, round, Edit.bind_of_error refuses]
          | ok changed =>
            refine .inr ⟨looked, count, item, left, changed, rfl, ran, grown, ?_⟩
            have grows : Edit.onObject (Edit.change (·.append item)) (sequence, left) =
                .ok () (changed, left) :=
              Edit.onObject_eq_ok_iff.mpr ⟨Edit.change_of_ok grown, rfl⟩
            rw [Edit.after, round, Edit.bind_of_ok grows]
            exact Edit.after_bind_pure (readNew rounds) (count + ·) (changed, left)

theorem extends_readNew (rounds : Nat) (sequence : Sequence Buffer) (stream : Stream) :
    sequence.Extends ((readNew rounds).after (sequence, stream)).1 := by
  induction rounds generalizing sequence stream with
  | zero => exact .refl sequence
  | succ rounds ih =>
    rcases readNew_after rounds sequence stream with same | ⟨_, _, _, left, changed, -, -, grown, goes⟩
    · rw [same]
      exact .refl sequence
    · rw [goes]
      exact (Extends.append grown).trans (ih changed left)

/-- The sequence after the buffers there are have been read, whether all of them were or not. -/
def resumed (sequence : Sequence Buffer) (stream : Stream) : Sequence Buffer :=
  { sequence with items := (Edit.after (Edit.eachWith Fragment.read) (sequence.items, stream)).1 }

/-- Reading goes on with new buffers only when all there are have been read. -/
theorem read_after (sequence : Sequence Buffer) (stream : Stream) :
    (read.after (sequence, stream)).1 = sequence.resumed stream ∨
      ∃ count others left, Edit.eachWith Fragment.read (sequence.items, stream) =
          .ok count (others, left) ∧ (sequence.resumed stream).items = others ∧
        read.after (sequence, stream) =
          (readNew (left.unread.length + 1)).after (sequence.resumed stream, left) := by
  cases ran : Edit.eachWith Fragment.read (sequence.items, stream) with
  | error failure pair =>
    left
    simp only [Edit.after, read_of_failed ran, resumed, ran]
  | ok count pair =>
    obtain ⟨others, left⟩ := pair
    have shape : sequence.resumed stream = { sequence with items := others } := by
      simp only [resumed, Edit.after, ran]
    refine .inr ⟨count, others, left, rfl, by rw [shape], ?_⟩
    rw [Edit.after, read_of_known ran, shape]
    exact Edit.after_bind_pure (readNew (left.unread.length + 1)) (count + ·) _

theorem extends_read (sequence : Sequence Buffer) (stream : Stream) :
    (sequence.resumed stream).Extends (read.after (sequence, stream)).1 := by
  rcases read_after sequence stream with same | ⟨_, _, left, -, -, goes⟩
  · rw [same]
    exact .refl _
  · rw [goes]
    exact extends_readNew _ _ left

/-- The buffers there are cannot outgrow the bounds by reading on, neither alone nor together. -/
structure Contained (sequence : Sequence Buffer) : Prop where
  whole : ∀ most, sequence.limit = some most →
    ∃ reached, reachAll sequence.items = some reached ∧ reached ≤ most
  each : ∀ most, sequence.itemLimit = some most → ∀ item ∈ sequence.items,
    ∃ reached, item.reach = some reached ∧ reached ≤ most

theorem Contained.within (contained : sequence.Contained) : sequence.Within := by
  refine ⟨fun most limited => ?_, fun most limited item member => ?_⟩
  · obtain ⟨reached, held, fits⟩ := contained.whole most limited
    exact (Buffer.totalSize_le_reachAll held).trans fits
  · obtain ⟨reached, held, fits⟩ := contained.each most limited item member
    exact (Buffer.size_le_reach held).trans fits

/-- A sequence with nothing in it is contained, whatever its bounds are. -/
theorem contained_of_blank (blank : sequence.items = []) : sequence.Contained := by
  refine ⟨fun most _ => ⟨0, ?_, Nat.zero_le most⟩, fun _ _ => ?_⟩
  · rw [blank]
    rfl
  · rw [blank]
    exact List.forall_mem_nil _

/-- A sequence whose bounds hold and whose buffers are full is contained. -/
theorem Within.contained (within : sequence.Within)
    (reached : ∀ item ∈ sequence.items, full item = true) : sequence.Contained := by
  refine ⟨fun most limited => ?_, fun most limited item member => ?_⟩
  · exact ⟨_, Buffer.reachAll_of_full reached, within.whole most limited⟩
  · exact ⟨_, Buffer.reach_of_full (reached item member), within.each most limited item member⟩

/-- Only what the buffers can reach matters. -/
theorem Contained.congr {others : List Buffer} (contained : sequence.Contained)
    (same : others.map reach = sequence.items.map reach) :
    { sequence with items := others }.Contained := by
  refine ⟨fun most limited => ?_, fun most limited item member => ?_⟩
  · rw [Buffer.reachAll_congr same]
    exact contained.whole most limited
  · have there : item.reach ∈ sequence.items.map reach := same ▸ List.mem_map_of_mem member
    obtain ⟨other, memberToo, reached⟩ := List.mem_map.mp there
    rw [← reached]
    exact contained.each most limited other memberToo

theorem map_reach_resumed (sequence : Sequence Buffer) (stream : Stream) :
    (sequence.resumed stream).items.map reach = sequence.items.map reach :=
  Edit.eachWith_map Buffer.keeps_reach sequence.items stream

theorem Contained.resumed (contained : sequence.Contained) (stream : Stream) :
    (sequence.resumed stream).Contained :=
  contained.congr (map_reach_resumed sequence stream)

theorem room_of_limit {most : Nat} (limited : sequence.limit = some most) :
    ∃ own, sequence.room = some own ∧ own ≤ most - sequence.totalSize := by
  cases each : sequence.itemLimit with
  | none => exact ⟨_, by rw [room, remaining, limited, each]; rfl, Nat.le_refl _⟩
  | some own => exact ⟨_, by rw [room, remaining, limited, each]; rfl, Nat.min_le_left _ _⟩

theorem room_of_itemLimit {most : Nat} (limited : sequence.itemLimit = some most) :
    ∃ own, sequence.room = some own ∧ own ≤ most := by
  cases whole : sequence.limit with
  | none => exact ⟨_, by rw [room, remaining, limited, whole]; rfl, Nat.le_refl _⟩
  | some own => exact ⟨_, by rw [room, remaining, limited, whole]; rfl, Nat.min_le_right _ _⟩

/-- A buffer that was created for the room there is can be appended to full ones. -/
theorem Contained.append_created (contained : sequence.Contained)
    (reached : ∀ item ∈ sequence.items, full item = true) (sized : item.reach = sequence.room) :
    { sequence with items := sequence.items ++ [item] }.Contained := by
  refine ⟨fun most limited => ?_, fun most limited => ?_⟩
  · have bounded := contained.within.whole most limited
    obtain ⟨own, held, fits⟩ := room_of_limit (show sequence.limit = some most from limited)
    refine ⟨_, Buffer.reachAll_append_singleton (Buffer.reachAll_of_full reached)
      (sized.trans held), ?_⟩
    rw [totalSize] at bounded fits
    omega
  · refine List.forall_mem_append.mpr ⟨contained.each most limited, ?_⟩
    obtain ⟨own, held, fits⟩ := room_of_itemLimit (show sequence.itemLimit = some most from limited)
    exact List.forall_mem_singleton.mpr ⟨own, sized.trans held, fits⟩

theorem Contained.readNew (contained : sequence.Contained)
    (settled : stream.Ended ∨ ∀ item ∈ sequence.items, full item = true) (rounds : Nat) :
    ((Sequence.readNew rounds).after (sequence, stream)).1.Contained := by
  induction rounds generalizing sequence stream with
  | zero => exact contained
  | succ rounds ih =>
    rcases readNew_after rounds sequence stream with
      same | ⟨looked, count, item, left, changed, looks, ran, grown, goes⟩
    · rw [same]
      exact contained
    · -- The stream goes on, so that no buffer in front of the new one can take any more.
      have reached : ∀ item ∈ sequence.items, full item = true := by
        refine settled.resolve_left fun ended => ?_
        simp [ended.isExhausted] at looks
      have sized : item.reach = sequence.room :=
        ((Buffer.keeps_reach _).of_ok rfl ran).trans (Buffer.reach_empty _)
      obtain ⟨-, -, rfl⟩ := append_eq_ok_iff.mp grown
      rw [goes]
      refine ih (contained.append_created reached sized) ?_
      exact (Buffer.read_settles ran).1.imp_right fun here =>
        List.forall_mem_append.mpr ⟨reached, List.forall_mem_singleton.mpr here⟩

/-- However a read ends, a contained sequence is contained afterwards. -/
theorem Contained.read (contained : sequence.Contained) (stream : Stream) :
    (Sequence.read.after (sequence, stream)).1.Contained := by
  rcases read_after sequence stream with same | ⟨_, _, left, ran, others, goes⟩
  · rw [same]
    exact contained.resumed stream
  · rw [goes]
    exact (contained.resumed stream).readNew (others ▸ (Buffer.eachWith_settles ran).1) _

/-- Buffers with nothing registered keep the bounds, whatever is read on into them, just if they are
contained. -/
theorem contained_iff_of_plain (plain : ∀ item ∈ sequence.items, item.Plain) :
    sequence.Contained ↔ ∀ stream, (sequence.resumed stream).Within := by
  refine ⟨fun contained stream => (contained.resumed stream).within, fun within => ?_⟩
  -- More bytes than the bounds admit fill every buffer that has a limit.
  let many := 1 + sequence.limit.getD 0 + sequence.items.length * sequence.itemLimit.getD 0
  obtain ⟨taken, others, left, ran, absorbs, settled⟩ :=
    absorbs_known (List.nil_append _).symm plain (.inr (by simp))
      (Stream.steady_ofBytes (Bytes.zeros many))
  rw [List.nil_append] at absorbs settled
  have shape : sequence.resumed (Stream.ofBytes (Bytes.zeros many)) =
      { sequence with items := others } := by
    simp only [resumed, Edit.after, ran]
  have kept := within (Stream.ofBytes (Bytes.zeros many))
  have same := map_reach_resumed sequence (Stream.ofBytes (Bytes.zeros many))
  rw [shape] at kept same
  rcases settled with ended | reached
  · have long : many ≤ Fragment.totalSize others := by
      have all := congrArg List.length absorbs.advances.unread
      rw [ended, Stream.unread_ofBytes, Bytes.length_zeros, List.append_nil] at all
      have total : Fragment.totalSize others = sequence.totalSize + taken.length := absorbs.total
      omega
    refine ⟨fun most limited => ?_, fun most limited => ?_⟩
    · have short : Fragment.totalSize others ≤ most := kept.whole most limited
      simp only [many, limited, Option.getD_some] at long
      omega
    · have short : Fragment.totalSize others ≤ others.length * most :=
        Fragment.totalSize_le_mul (kept.each most limited)
      have count : others.length = sequence.items.length := by
        simpa using congrArg List.length same
      simp only [many, limited, Option.getD_some] at long
      rw [count] at short
      omega
  · exact (kept.contained reached).congr same.symm

/-- What may be done to a sequence. -/
inductive Change
  | append (item : Buffer)
  | extend (items : List Buffer)
  | replace (index : Nat) (item : Buffer)
  | read (stream : Stream)

/-- The sequence that a change leaves behind, whether it fails or not. -/
def Change.apply (sequence : Sequence Buffer) : Change → Sequence Buffer
  | append item => (Edit.change (Sequence.append · item)).after sequence
  | extend items => (Edit.change (Sequence.extend · items)).after sequence
  | replace index item => (Edit.exchange (Sequence.replace · index item)).after sequence
  | read stream => (Sequence.read.after (sequence, stream)).1

/-- The sequence that changes leave behind one after the other. -/
def run (start : Sequence Buffer) (changes : List Change) : Sequence Buffer :=
  changes.foldl Change.apply start

theorem run_append (start : Sequence Buffer) (passed : List Change) (change : Change) :
    run start (passed ++ [change]) = change.apply (run start passed) := by
  rw [run, List.foldl_append]
  rfl

/-- A change keeps the bounds, unless it is a read in which the buffers there are outgrow them. -/
theorem Within.apply (within : sequence.Within) {change : Change}
    (kept : ∀ stream, change = .read stream → (sequence.resumed stream).Within) :
    (change.apply sequence).Within := by
  cases change with
  | append item => exact Edit.Keeps.change (fun _ _ within => within.append) sequence within
  | extend items => exact Edit.Keeps.change (fun _ _ within => within.extend) sequence within
  | replace index item =>
    cases ran : sequence.replace index item with
    | error failure => simpa only [Change.apply, Edit.after, Edit.exchange, ran] using within
    | ok pair => simpa only [Change.apply, Edit.after, Edit.exchange, ran] using within.replace ran
  | read stream => exact (extends_read sequence stream).within (kept stream rfl)

/-- The bounds hold after every change just if they hold at the start and in every read after the
buffers there are have been read on. -/
theorem within_run_iff (start : Sequence Buffer) (changes : List Change) :
    (∀ passed, passed <+: changes → (run start passed).Within) ↔
      start.Within ∧ ∀ passed stream, passed ++ [.read stream] <+: changes →
        ((run start passed).resumed stream).Within := by
  constructor
  · intro kept
    refine ⟨kept [] List.nil_prefix, fun passed stream reached => ?_⟩
    have within := kept _ reached
    rw [run_append] at within
    exact (extends_read _ stream).within_iff.mp within
  · rintro ⟨within, kept⟩ passed reached
    induction passed using List.reverseRecOn with
    | nil => exact within
    | append_singleton passed change ih =>
      rw [run_append]
      refine (ih ((List.prefix_append _ _).trans reached)).apply fun stream same => ?_
      subst same
      exact kept passed stream reached

/-- A sequence that is contained stays so if everything that is placed in it leaves it so. -/
theorem contained_run {changes passed : List Change} (contained : start.Contained)
    (placed : ∀ passed change, passed ++ [change] <+: changes →
      (∃ stream, change = .read stream) ∨ (run start (passed ++ [change])).Contained)
    (reached : passed <+: changes) : (run start passed).Contained := by
  induction passed using List.reverseRecOn with
  | nil => exact contained
  | append_singleton passed change ih =>
    rcases placed passed change reached with ⟨stream, rfl⟩ | done
    · rw [run_append]
      exact (ih ((List.prefix_append _ _).trans reached)).read stream
    · exact done

/-- Whatever is placed in a sequence and read into it, the bounds hold after every call just if they
hold at the start and in every read after the buffers there are have been read on. They do if the
sequence is contained at the start and whenever something was placed in it. -/
theorem bounds_kept_iff (start : Sequence Buffer) (changes : List Change) :
    ((∀ passed, passed <+: changes → (run start passed).Within) ↔
      start.Within ∧ ∀ passed stream, passed ++ [.read stream] <+: changes →
        ((run start passed).resumed stream).Within) ∧
    (start.Contained →
      (∀ passed change, passed ++ [change] <+: changes →
        (∃ stream, change = .read stream) ∨ (run start (passed ++ [change])).Contained) →
      ∀ passed, passed <+: changes → (run start passed).Within) :=
  ⟨within_run_iff start changes, fun contained placed _ reached =>
    (contained_run contained placed reached).within⟩

/-- A buffer without a limit takes eight bytes in a sequence that is bounded by four. -/
theorem read_exceeds_bounds :
    let start : Sequence Buffer := (empty (some 4)).withItemLimit 4
    let changes := [Change.append (Buffer.empty none),
      .read (Stream.ofBytes [0, 1, 2, 3, 4, 5, 6, 7])]
    start.Within ∧ (run start changes).totalSize = 8 ∧ ¬(run start changes).Within := by
  refine ⟨(contained_of_blank rfl).within, by decide +kernel, fun within => ?_⟩
  exact absurd (within.whole 4 (by decide +kernel)) (by decide +kernel)

end Sequence
end SecureBoot
