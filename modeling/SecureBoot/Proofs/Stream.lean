import SecureBoot.Proofs.Call

/-!
Streams that cannot fail behave as the bytes they have not handed out, however their source
delivers them. `Advances` relates a stream to what a call leaves of it.
-/

namespace SecureBoot

namespace Source

theorem draw_ended {deliveries : List Delivery} (wanted : Nat)
    (sound : Delivery.failure ∉ deliveries) :
    ∃ left stop, draw .ended wanted deliveries = ((bytesOf deliveries).take wanted, left, stop) ∧
      Delivery.failure ∉ left ∧ bytesOf left = (bytesOf deliveries).drop wanted ∧
      (stop = .satisfied ∨ stop = .exhausted ∧ left = []) := by
  fun_induction draw .ended wanted deliveries with
  | case1 deliveries => exact ⟨deliveries, .satisfied, by simp, sound, rfl, .inl rfl⟩
  | case2 wanted => exact ⟨[], .exhausted, by simp [bytesOf], by simp, rfl, .inr ⟨rfl, rfl⟩⟩
  | case3 => simp_all
  | case4 wanted rest ih =>
    have later : Delivery.failure ∉ rest := fun inside => sound (List.mem_cons_of_mem _ inside)
    exact ih later
  | case5 => simp at sound
  | case6 wanted bytes rest longer =>
    have later : Delivery.failure ∉ rest := fun inside => sound (List.mem_cons_of_mem _ inside)
    refine ⟨.piece (bytes.drop (wanted + 1)) :: rest, .satisfied, ?_, ?_, ?_, .inl rfl⟩
    · rw [bytesOf, List.take_append_of_le_length (by omega)]
    · simpa using later
    · rw [bytesOf, bytesOf, List.drop_append_of_le_length (by omega)]
  | case7 wanted bytes rest longer more left stop drawn ih =>
    have later : Delivery.failure ∉ rest := fun inside => sound (List.mem_cons_of_mem _ inside)
    obtain ⟨others, reason, ran, safe, remaining, why⟩ := ih later
    obtain ⟨rfl, rfl, rfl⟩ : more = _ ∧ left = others ∧ stop = reason := by
      simpa [drawn] using ran
    refine ⟨left, stop, ?_, safe, ?_, why⟩
    · have whole : bytes.take (wanted + 1) = bytes := List.take_of_length_le (by omega)
      rw [bytesOf, List.take_append, Nat.succ_eq_add_one, whole]
    · have none : bytes.drop (wanted + 1) = [] := List.drop_eq_nil_of_le (by omega)
      rw [remaining, bytesOf, List.drop_append, Nat.succ_eq_add_one, none, List.nil_append]

end Source

namespace Stream

variable {stream before between after : Stream} {taken more : Bytes}

/-- A stream whose reads cannot fail: the end has been seen, or the source delivers what it holds
and ends. -/
def Steady (stream : Stream) : Prop :=
  stream.exhausted = true ∨
    stream.source.finish = .ended ∧ Delivery.failure ∉ stream.source.deliveries

/-- The bytes were taken from the front of one stream, and the other one is left. -/
structure Advances (before after : Stream) (taken : Bytes) : Prop where
  unread : before.unread = taken ++ after.unread
  position : after.position = before.position + taken.length
  steady : after.Steady

theorem Advances.refl (steady : stream.Steady) : stream.Advances stream [] :=
  ⟨rfl, rfl, steady⟩

theorem Advances.trans (first : before.Advances between taken)
    (second : between.Advances after more) : before.Advances after (taken ++ more) := by
  refine ⟨?_, ?_, second.steady⟩
  · rw [first.unread, second.unread, List.append_assoc]
  · rw [second.position, first.position, List.length_append, Nat.add_assoc]

/-- What follows the bytes that were taken is what is left. -/
theorem Advances.unread_eq {rest : Bytes} (advances : before.Advances after taken)
    (held : before.unread = taken ++ rest) : after.unread = rest := by
  have same := advances.unread
  rw [held] at same
  exact (List.append_cancel_left same).symm

theorem steady_ofBytes (bytes : Bytes) : (ofBytes bytes).Steady := by
  right
  simp [ofBytes, ofSource, Source.ofBytes]

@[simp] theorem unread_ofBytes (bytes : Bytes) : (ofBytes bytes).unread = bytes := by
  simp [ofBytes, ofSource, Source.ofBytes, unread, Source.bytesOf]

@[simp] theorem position_ofBytes (bytes : Bytes) : (ofBytes bytes).position = 0 :=
  rfl

/-- Looking ahead moves bytes from the source to the look-ahead, as many as are there. -/
private theorem fill_steady (wanted : Nat) (steady : stream.Steady) :
    ∃ filled, fill wanted stream = .ok () filled ∧ stream.Advances filled [] ∧
      ∃ beyond, filled.unread = filled.lookahead ++ beyond ∧
        (wanted ≤ filled.lookahead.length ∨ beyond = []) := by
  obtain ⟨⟨deliveries, finish⟩, lookahead, exhausted, position⟩ := stream
  cases exhausted with
  | true => exact ⟨_, rfl, .refl steady, [], by simp [unread], .inr rfl⟩
  | false =>
    obtain ⟨ends, sound⟩ : finish = .ended ∧ Delivery.failure ∉ deliveries :=
      steady.resolve_left (by simp)
    obtain ⟨left, stop, drawn, safe, remaining, why⟩ :=
      Source.draw_ended (wanted - lookahead.length) sound
    have whole := List.take_append_drop (wanted - lookahead.length) (Source.bytesOf deliveries)
    rw [← remaining] at whole
    rcases why with rfl | ⟨rfl, rfl⟩
    · refine ⟨⟨⟨left, finish⟩, lookahead ++
        (Source.bytesOf deliveries).take (wanted - lookahead.length), false, position⟩,
        ?_, ⟨?_, rfl, .inr ⟨ends, safe⟩⟩, Source.bytesOf left, by simp [unread], ?_⟩
      · subst ends
        simp [fill, drawn]
      · simp [unread, whole]
      · by_cases enough : wanted - lookahead.length ≤ (Source.bytesOf deliveries).length
        · left
          simp only [List.length_append, List.length_take]
          omega
        · right
          rw [remaining]
          exact List.drop_eq_nil_of_le (by omega)
    · rw [Source.bytesOf, List.append_nil] at whole
      refine ⟨⟨⟨[], finish⟩, lookahead ++ Source.bytesOf deliveries, true, position⟩,
        ?_, ⟨by simp [unread], rfl, .inl rfl⟩, [], by simp [unread], .inr rfl⟩
      subst ends
      simp [fill, drawn, whole]

private theorem take_lookahead {beyond : Bytes} {wanted : Nat}
    (held : stream.unread = stream.lookahead ++ beyond)
    (enough : wanted ≤ stream.lookahead.length ∨ beyond = []) :
    stream.lookahead.take wanted = stream.unread.take wanted := by
  rw [held]
  rcases enough with enough | rfl
  · rw [List.take_append_of_le_length enough]
  · rw [List.append_nil]

theorem peek_steady (count : Nat) (steady : stream.Steady) :
    ∃ after, peek count stream = .ok (stream.unread.take count) after ∧
      stream.Advances after [] := by
  obtain ⟨filled, ran, advances, beyond, held, enough⟩ := fill_steady count steady
  have same := advances.unread
  rw [List.nil_append] at same
  refine ⟨filled, ?_, advances⟩
  rw [peek, Edit.bind_of_ok ran, same, ← take_lookahead held enough]
  rfl

theorem readUpTo_steady (count : Nat) (steady : stream.Steady) :
    ∃ after, readUpTo count stream = .ok (stream.unread.take count) after ∧
      stream.Advances after (stream.unread.take count) := by
  obtain ⟨filled, ran, advances, beyond, held, enough⟩ := fill_steady count steady
  have same := advances.unread
  rw [List.nil_append] at same
  have front := take_lookahead held enough
  refine ⟨{ filled with
    lookahead := filled.lookahead.drop count
    position := filled.position + (filled.lookahead.take count).length }, ?_, ?_, ?_, ?_⟩
  · rw [readUpTo, Edit.bind_of_ok ran, same, ← front]
    rfl
  · have rest : ({ filled with
        lookahead := filled.lookahead.drop count
        position := filled.position + (filled.lookahead.take count).length } : Stream).unread =
          filled.lookahead.drop count ++ beyond := by
      by_cases ended : filled.exhausted = true
      · simp only [unread, ended, if_true] at held ⊢
        have none : beyond = [] := List.append_cancel_left (held.symm.trans (List.append_nil _).symm)
        rw [none, List.append_nil]
      · simp only [unread, ended] at held ⊢
        rw [List.append_cancel_left held]
        simp
    rw [rest, same, ← front, held, ← List.append_assoc, List.take_append_drop]
  · have kept := advances.position
    simp only [List.length_nil, Nat.add_zero] at kept
    rw [same, ← front, kept]
  · exact advances.steady

theorem isExhausted_steady (steady : stream.Steady) :
    ∃ after, isExhausted stream = .ok stream.unread.isEmpty after ∧ stream.Advances after [] := by
  obtain ⟨after, ran, advances⟩ := peek_steady 1 steady
  refine ⟨after, ?_, advances⟩
  rw [isExhausted, Edit.bind_of_ok ran]
  cases stream.unread <;> rfl

theorem readToEnd_steady (steady : stream.Steady) :
    ∃ after, readToEnd stream = .ok stream.unread after ∧ stream.Advances after stream.unread := by
  obtain ⟨⟨deliveries, finish⟩, lookahead, exhausted, position⟩ := stream
  cases exhausted with
  | true =>
    refine ⟨⟨⟨deliveries, finish⟩, [], true, position + lookahead.length⟩, ?_, ?_, ?_, .inl rfl⟩
    · simp [readToEnd, unread]
    · simp [unread]
    · simp [unread]
  | false =>
    obtain ⟨ends, sound⟩ : finish = .ended ∧ Delivery.failure ∉ deliveries :=
      steady.resolve_left (by simp)
    obtain ⟨left, stop, drawn, -, -, why⟩ :=
      Source.draw_ended ((Source.bytesOf deliveries).length + 1) sound
    rw [List.take_of_length_le (Nat.le_succ _)] at drawn
    have drained : stop ≠ .failed := by
      rintro rfl
      simp at why
    refine ⟨⟨⟨left, finish⟩, [], true,
      position + (lookahead ++ Source.bytesOf deliveries).length⟩, ?_, ?_, ?_, .inl rfl⟩
    · subst ends
      cases stop <;> simp_all [readToEnd, unread]
    · simp [unread]
    · simp [unread]

end Stream
end SecureBoot
