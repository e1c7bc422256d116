import SecureBoot.Proofs.Chain
import SecureBoot.Proofs.Container
import SecureBoot.Signing.Module

/-!
Reading twice. What a call took from a stream it takes again, with the same outcome, wherever less
of what followed comes next; for calls that never look at the bytes behind what they take this
follows step by step. A chain of unknown length does look there, but only for the want of an entry,
and fewer bytes begin none either.
-/

namespace SecureBoot

/-- Fewer bytes begin no entry either. -/
theorem ChainEntry.NoEntry.of_prefix {bytes rest : Bytes} (absent : NoEntry bytes)
    (fewer : rest <+: bytes) : NoEntry rest := by
  obtain ⟨more, rfl⟩ := fewer
  by_cases short : rest.length < 8
  · exact .inl short
  · have long : ¬(rest ++ more).length < 8 := by
      rw [List.length_append]
      omega
    have unknown := absent.resolve_left long
    rw [Bytes.wordAt_append_left (by omega)] at unknown
    exact .inr unknown

namespace Edit

variable {σ τ α β : Type} {bytes rest : Bytes} {stream left : Stream} {count : Nat}

/-- What the call took from a stream it takes again where less of the rest comes next. -/
def ServesAgain (call : Edit Stream α) : Prop :=
  ∀ ⦃stream left : Stream⦄ ⦃answer : α⦄, stream.Steady → call stream = .ok answer left →
    ∃ taken, stream.Advances left taken ∧
      ∀ rest, rest <+: left.unread → Serves call taken rest answer

/-- What the call took into an object it takes again where less of the rest comes next. -/
def TakesAgain (call : Edit (σ × Stream) α) : Prop :=
  ∀ ⦃object changed : σ⦄ ⦃stream left : Stream⦄ ⦃answer : α⦄, stream.Steady →
    call (object, stream) = .ok answer (changed, left) →
      ∃ taken, stream.Advances left taken ∧
        ∀ rest, rest <+: left.unread → Takes call object taken rest answer changed

/-- What one step leaves begins with what the next one takes. -/
theorem prefix_unread {between : Stream} {taken : Bytes}
    (advances : between.Advances left taken) (fewer : rest <+: left.unread) :
    taken ++ rest <+: between.unread := by
  rw [advances.unread]
  exact (List.prefix_append_right_inj taken).mpr fewer

namespace ServesAgain

theorem pure (answer : α) : ServesAgain (pure answer) := by
  intro stream left other steady ran
  obtain ⟨rfl, rfl⟩ := pure_eq_ok_iff.mp ran
  exact ⟨[], .refl steady, fun rest _ => .pure _ rest⟩

theorem bind {call : Edit Stream α} {next : α → Edit Stream β} (first : ServesAgain call)
    (second : ∀ answer, ServesAgain (next answer)) : ServesAgain (call >>= next) := by
  intro stream left result steady ran
  obtain ⟨answer, between, ranFirst, ranNext⟩ := bind_eq_ok_iff.mp ran
  obtain ⟨taken, advances, again⟩ := first steady ranFirst
  obtain ⟨more, further, againNext⟩ := second answer advances.steady ranNext
  exact ⟨taken ++ more, advances.trans further, fun rest fewer =>
    (again _ (prefix_unread further fewer)).bind (againNext rest fewer)⟩

/-- A question that is not about the stream. -/
theorem ask (answer : Except Failure α) : ServesAgain (ask fun _ => answer) := by
  intro stream left value steady ran
  obtain ⟨answered, rfl⟩ := ask_eq_ok_iff.mp ran
  exact ⟨[], .refl steady, fun rest _ => .ask fun _ => answered⟩

/-- Fewer bytes than were asked for are all there are. -/
theorem readUpTo (count : Nat) : ServesAgain (Stream.readUpTo count) := by
  intro stream left answer steady ran
  obtain ⟨rfl, advances⟩ := readUpTo_sound steady ran
  refine ⟨_, advances, fun rest fewer other steadyOther held => ?_⟩
  obtain ⟨after, ranOther, advancesOther⟩ := Stream.readUpTo_steady count steadyOther
  have same : other.unread.take count = stream.unread.take count := by
    by_cases enough : count ≤ stream.unread.length
    · rw [held, List.take_left' (List.length_take_of_le enough)]
    · have all : stream.unread.take count = stream.unread := List.take_of_length_le (by omega)
      rw [all] at advances
      have none := advances.unread_eq (List.append_nil _).symm
      rw [none] at fewer
      rw [held, List.prefix_nil.mp fewer, List.append_nil, List.take_take, Nat.min_self]
  rw [same] at ranOther advancesOther
  exact ⟨after, ranOther, advancesOther⟩

theorem readToEnd : ServesAgain Stream.readToEnd := by
  intro stream left answer steady ran
  obtain ⟨rfl, advances⟩ := readToEnd_sound steady ran
  have none := advances.unread_eq (List.append_nil _).symm
  refine ⟨_, advances, fun rest fewer => ?_⟩
  rw [none] at fewer
  rw [List.prefix_nil.mp fewer]
  exact .readToEnd _

theorem takeExactly (size : Nat) (field : LengthField) : ServesAgain (takeExactly size field) :=
  (readUpTo size).bind fun _ => (ask _).bind fun _ => pure _

theorem readNew [Fragment τ] (fragment : τ)
    (again : TakesAgain (Fragment.read : Edit (τ × Stream) Nat)) :
    ServesAgain (readNew fragment) := by
  intro stream left answer steady ran
  obtain ⟨count, read⟩ := answer
  obtain ⟨taken, advances, takes⟩ := again steady (readNew_eq_ok_iff.mp ran)
  exact ⟨taken, advances, fun rest fewer => .readNew (takes rest fewer)⟩

end ServesAgain

namespace TakesAgain

theorem pure (answer : α) : TakesAgain (pure answer : Edit (σ × Stream) α) := by
  intro object changed stream left other steady ran
  obtain ⟨rfl, same⟩ := pure_eq_ok_iff.mp ran
  obtain ⟨rfl, rfl⟩ := Prod.mk.inj same
  exact ⟨[], .refl steady, fun rest _ => .pure _ _ rest⟩

theorem bind {call : Edit (σ × Stream) α} {next : α → Edit (σ × Stream) β} (first : TakesAgain call)
    (second : ∀ answer, TakesAgain (next answer)) : TakesAgain (call >>= next) := by
  intro object changed stream left result steady ran
  obtain ⟨answer, ⟨middle, between⟩, ranFirst, ranNext⟩ := bind_eq_ok_iff.mp ran
  obtain ⟨taken, advances, again⟩ := first steady ranFirst
  obtain ⟨more, further, againNext⟩ := second answer advances.steady ranNext
  exact ⟨taken ++ more, advances.trans further, fun rest fewer =>
    (again _ (prefix_unread further fewer)).bind (againNext rest fewer)⟩

/-- A step that looks at the object only. -/
theorem get_bind {next : σ × Stream → Edit (σ × Stream) β}
    (same : ∀ object stream other, next (object, stream) = next (object, other))
    (second : ∀ object stream, TakesAgain (next (object, stream))) :
    TakesAgain (get >>= next) := by
  intro object changed stream left result steady ran
  obtain ⟨_, _, got, ranNext⟩ := bind_eq_ok_iff.mp ran
  obtain ⟨rfl, rfl⟩ := get_eq_ok_iff.mp got
  obtain ⟨taken, advances, again⟩ := second object stream steady ranNext
  refine ⟨taken, advances, fun rest fewer => .get_bind fun other _ => ?_⟩
  rw [same object other stream]
  exact again rest fewer

/-- A question about the object only. -/
theorem ask {question : σ × Stream → Except Failure α}
    (same : ∀ object stream other, question (object, stream) = question (object, other)) :
    TakesAgain (ask question) := by
  intro object changed stream left answer steady ran
  obtain ⟨answered, kept⟩ := ask_eq_ok_iff.mp ran
  obtain ⟨rfl, rfl⟩ := Prod.mk.inj kept
  refine ⟨[], .refl steady, fun rest _ => .ask fun other => ?_⟩
  rw [same object other stream, answered]

theorem onObject (call : Edit σ α) : TakesAgain (onObject call) := by
  intro object changed stream left answer steady ran
  obtain ⟨ranCall, rfl⟩ := onObject_eq_ok_iff.mp ran
  exact ⟨[], .refl steady, fun rest _ => .onObject ranCall rest⟩

theorem fromStream {call : Edit Stream α} (again : ServesAgain call) :
    TakesAgain (fromStream call : Edit (σ × Stream) α) := by
  intro object changed stream left answer steady ran
  obtain ⟨ranCall, rfl⟩ := fromStream_eq_ok_iff.mp ran
  obtain ⟨taken, advances, serves⟩ := again steady ranCall
  exact ⟨taken, advances, fun rest fewer => .fromStream (serves rest fewer) _⟩

theorem part {call : Edit (τ × Stream) α} {view : σ → τ} {put : σ → τ → σ}
    (again : TakesAgain call) :
    TakesAgain (within (fun (object, stream) => (view object, stream))
      (fun (object, _) (component, stream) => (put object component, stream)) call) := by
  intro object changed stream left answer steady ran
  obtain ⟨⟨component, after⟩, ranCall, same⟩ := within_eq_ok_iff.mp ran
  obtain ⟨rfl, rfl⟩ := Prod.mk.inj same
  obtain ⟨taken, advances, takes⟩ := again steady ranCall
  exact ⟨taken, advances, fun rest fewer => .part (takes rest fewer)⟩

theorem readPart [Fragment τ] {view : σ → τ} {put : σ → τ → σ}
    (again : TakesAgain (Fragment.read : Edit (τ × Stream) Nat)) : TakesAgain (readPart view put) :=
  part again

end TakesAgain
end Edit

open Edit (TakesAgain ServesAgain)

namespace Buffer

private theorem again_appendFrom {call : Edit Stream Bytes} (again : ServesAgain call) :
    TakesAgain (appendFrom call) :=
  (TakesAgain.fromStream again).bind fun _ => (TakesAgain.onObject _).bind fun _ => .pure _

theorem again_fill : TakesAgain fill := by
  refine .get_bind (fun _ _ _ => rfl) fun buffer stream => ?_
  cases limited : buffer.limit with
  | none =>
    simp only [limited]
    exact again_appendFrom .readToEnd
  | some limit =>
    simp only [limited]
    split
    · exact .pure 0
    · exact again_appendFrom (.readUpTo _)

theorem again_read : TakesAgain (Fragment.read : Edit (Buffer × Stream) Nat) := by
  refine again_fill.bind fun count => .get_bind (fun _ _ _ => rfl) fun buffer stream => ?_
  dsimp only
  split
  · exact (TakesAgain.onObject _).bind fun _ => .pure count
  · exact .pure count

end Buffer

theorem Buffered.again_read {α : Type} [Buffered α] :
    TakesAgain (read : Edit (α × Stream) Nat) := by
  refine (TakesAgain.part Buffer.again_fill).bind fun count =>
    .get_bind (fun _ _ _ => rfl) fun object stream => ?_
  dsimp only
  split
  · exact (TakesAgain.onObject _).bind fun _ => .pure count
  · exact .pure count

theorem ChainEntry.again_read : TakesAgain (Fragment.read : Edit (ChainEntry × Stream) Nat) := by
  show TakesAgain ChainEntry.read
  rw [ChainEntry.read]
  refine .bind (.ask fun _ _ _ => rfl) fun _ => .bind (.fromStream (.takeExactly _ _)) fun _ => ?_
  refine .bind (.onObject _) fun _ => .bind (.onObject _) fun _ => .bind (.onObject _) fun _ => ?_
  refine .bind (.fromStream (.takeExactly _ _)) fun _ => .bind (.onObject _) fun _ => ?_
  refine .bind (.ask fun _ _ _ => rfl) fun _ => .bind (.onObject _) fun _ => ?_
  refine .bind (.fromStream (.takeExactly _ _)) fun _ => .bind (.onObject _) fun _ => ?_
  exact .bind (.onObject _) fun _ => .get_bind (fun _ _ _ => rfl) fun _ _ => .pure _

/-- Reading a chain stops for the same reason where less of the rest comes next. -/
theorem SignatureChain.again_readNew (pending : Option Nat) :
    ServesAgain (Edit.readNew (expecting pending)) := by
  intro stream left answer steady ran
  obtain ⟨count, chain⟩ := answer
  obtain ⟨valid, standard, advances, rfl, counted, stopped⟩ :=
    read_sound steady (Edit.readNew_eq_ok_iff.mp ran)
  refine ⟨_, advances, fun rest fewer => .readNew (takes_read standard valid ?_)⟩
  cases pending with
  | some expected => exact .inl (congrArg some (counted expected rfl).symm)
  | none => exact .inr ⟨rfl, (stopped rfl).imp_right fun absent => absent.of_prefix fewer⟩

namespace ChainTable

private theorem again_readSlot (table : ChainTable) (index : Nat) :
    ServesAgain (table.readSlot index) := by
  refine .bind (.ask _) fun pending => .bind (.ask _) fun span => ?_
  cases span with
  | none => exact SignatureChain.again_readNew pending
  | some span =>
    exact .bind (.takeExactly span .chain) fun _ => .bind (.ask _) fun _ => .bind (.ask _) fun _ =>
      .pure _

private theorem again_readSlots (indices : List Nat) : TakesAgain (readSlots indices) := by
  induction indices with
  | nil => exact .pure 0
  | cons index rest ih =>
    rw [readSlots]
    exact .get_bind (fun _ _ _ => rfl) fun table _ =>
      .bind (.fromStream (again_readSlot table index)) fun _ => .bind (.onObject _) fun _ =>
        .bind ih fun _ => .pure _

theorem again_read : TakesAgain (Fragment.read : Edit (ChainTable × Stream) Nat) := by
  show TakesAgain ChainTable.read
  rw [ChainTable.read]
  refine .bind (.ask fun _ _ _ => rfl) fun _ => .bind (.readPart Buffer.again_read) fun _ => ?_
  refine .bind (.onObject _) fun _ => .bind (.onObject _) fun _ => ?_
  refine .get_bind (fun _ _ _ => rfl) fun table _ => .bind (again_readSlots _) fun _ => ?_
  refine .bind (.onObject _) fun _ => .bind (.onObject _) fun _ => ?_
  exact .bind (.readPart Buffer.again_read) fun _ => .bind (.onObject _) fun _ => .pure _

end ChainTable

theorem SignatureDescriptor.again_read :
    TakesAgain (Fragment.read : Edit (SignatureDescriptor × Stream) Nat) := by
  show TakesAgain SignatureDescriptor.read
  rw [SignatureDescriptor.read]
  refine .bind (.readPart Buffer.again_read) fun _ => .bind (.onObject _) fun _ => ?_
  refine .bind (.onObject _) fun _ => .bind (.onObject _) fun _ => ?_
  refine .bind (.readPart ChainTable.again_read) fun _ => ?_
  exact .bind (.readPart Buffer.again_read) fun _ => .bind (.onObject _) fun _ => .pure _

theorem Section.again_read : TakesAgain (Fragment.read : Edit (Section × Stream) Nat) := by
  show TakesAgain Section.read
  rw [Section.read]
  refine .bind (.readPart Buffered.again_read) fun _ => .bind (.ask fun _ _ _ => rfl) fun _ => ?_
  refine .bind (.readPart SignatureDescriptor.again_read) fun _ => .bind (.onObject _) fun _ => ?_
  refine .bind (.onObject _) fun _ => .bind (.readPart Buffer.again_read) fun _ => ?_
  exact .bind (.onObject _) fun _ => .pure _

theorem Certificate.again_read : TakesAgain (Fragment.read : Edit (Certificate × Stream) Nat) := by
  show TakesAgain Certificate.read
  rw [Certificate.read]
  refine .bind (.readPart Buffered.again_read) fun _ => .bind (.ask fun _ _ _ => rfl) fun _ => ?_
  refine .bind (.readPart SignatureDescriptor.again_read) fun _ => ?_
  exact .bind (.onObject _) fun _ => .pure _

namespace SigningModule

variable {α : Type} [Fragment α] {build : α → Buffer → SigningModule} {header newHeader : α}
  {slot newSlot : Buffer} {start changed : SigningModule} {stream left : Stream}
  {bytes more rest : Bytes} {count first second : Nat}

/-- Reading a header and its slot is reading the one and then the other. -/
theorem readSigned_eq_ok_iff :
    readSigned build header slot (start, stream) = .ok count (changed, left) ↔
      ∃ first newHeader between second newSlot,
        Fragment.read (header, stream) = .ok first (newHeader, between) ∧
          Fragment.read (slot, between) = .ok second (newSlot, left) ∧
          first + second = count ∧ build newHeader newSlot = changed := by
  rw [readSigned]
  cases one : Fragment.read (header, stream) with
  | error failure pair => simp
  | ok first pair =>
    obtain ⟨newHeader, between⟩ := pair
    cases two : Fragment.read (slot, between) with
    | error failure pair => simp [two]
    | ok second pair => simp [two, Prod.ext_iff]; grind

theorem takes_readSigned
    (one : Edit.Takes Fragment.read header bytes (more ++ rest) first newHeader)
    (two : Edit.Takes Fragment.read slot more rest second newSlot) (start : SigningModule) :
    Edit.Takes (readSigned build header slot) start (bytes ++ more) rest (first + second)
      (build newHeader newSlot) := by
  intro stream steady held
  rw [List.append_assoc] at held
  obtain ⟨between, ran, advances⟩ := one stream steady held
  obtain ⟨left, ranOn, further⟩ := two between advances.steady (advances.unread_eq held)
  exact ⟨left, readSigned_eq_ok_iff.mpr ⟨_, _, _, _, _, ran, ranOn, rfl, rfl⟩,
    advances.trans further⟩

private theorem again_readSigned (again : TakesAgain (Fragment.read : Edit (α × Stream) Nat))
    (header : α) (slot : Buffer) : TakesAgain (readSigned build header slot) := by
  intro start changed stream left count steady ran
  obtain ⟨first, newHeader, between, second, newSlot, ranHeader, ranOn, rfl, rfl⟩ :=
    readSigned_eq_ok_iff.mp ran
  obtain ⟨taken, advances, takes⟩ := again steady ranHeader
  obtain ⟨more, further, takesOn⟩ := Buffer.again_read advances.steady ranOn
  refine ⟨taken ++ more, advances.trans further, fun rest fewer => ?_⟩
  exact takes_readSigned (takes _ (Edit.prefix_unread further fewer)) (takesOn rest fewer) start

/-- Reading an entry is reading the module that it makes up. -/
theorem readParts_publicKey_eq_ok_iff {entry : ChainEntry} :
    readParts (publicKey entry, stream) = .ok count (changed, left) ↔
      ∃ newEntry, Fragment.read (entry, stream) = .ok count (newEntry, left) ∧
        publicKey newEntry = changed := by
  simp only [readParts]
  cases Fragment.read (entry, stream) with
  | error failure pair => simp
  | ok number pair => simp [Prod.ext_iff, and_assoc]; grind

theorem again_readParts : TakesAgain readParts := by
  intro object changed stream left count steady ran
  cases object with
  | cmfDescriptor header slot =>
    exact @again_readSigned _ _ cmfDescriptor Buffered.again_read header slot
      (cmfDescriptor header slot) changed stream left count steady ran
  | certificateHeader header slot =>
    exact @again_readSigned _ _ certificateHeader Buffered.again_read header slot
      (certificateHeader header slot) changed stream left count steady ran
  | publicKey entry =>
    obtain ⟨newEntry, ranEntry, rfl⟩ := readParts_publicKey_eq_ok_iff.mp ran
    obtain ⟨taken, advances, takes⟩ := ChainEntry.again_read steady ranEntry
    refine ⟨taken, advances, fun rest fewer other steadyOther held => ?_⟩
    obtain ⟨after, ranOther, further⟩ := takes rest fewer other steadyOther held
    exact ⟨after, readParts_publicKey_eq_ok_iff.mpr ⟨newEntry, ranOther, rfl⟩, further⟩

theorem again_read : TakesAgain (Fragment.read : Edit (SigningModule × Stream) Nat) := by
  show TakesAgain SigningModule.read
  rw [SigningModule.read]
  exact .bind again_readParts fun _ => .bind (.onObject _) fun _ => .bind (.onObject _) fun _ =>
    .pure _

end SigningModule

end SecureBoot
