import SecureBoot.Proofs.Call

/-!
What calls keep. A call that fails may have done part of its work, so what is true of every object
there is has to survive the calls that fail as well as those that succeed. `Keeps` says so of a
call; the rules here follow the steps of a call and the parts of an object.
-/

namespace SecureBoot

namespace Edit

variable {σ τ α β : Type} {fine : σ → Prop} {part : τ → Prop}

theorem after_bind {call : Edit σ α} {next : α → Edit σ β} {object between : σ} {answer : α}
    (ran : call object = .ok answer between) :
    (call >>= next).after object = (next answer).after between := by
  rw [after, bind_of_ok ran]
  rfl

theorem after_bind_of_error {call : Edit σ α} {next : α → Edit σ β} {object left : σ}
    {failure : Failure} (failed : call object = .error failure left) :
    (call >>= next).after object = left := by
  rw [after, bind_of_error failed]

/-- What is done with the answer of a call does nothing to the object. -/
theorem after_bind_pure (call : Edit σ α) (next : α → β) (object : σ) :
    (call >>= fun answer => pure (next answer)).after object = call.after object := by
  cases ran : call object with
  | ok answer changed =>
    rw [after_bind ran, after, after, ran]
    rfl
  | error failure left => rw [after_bind_of_error ran, after, ran]

/-- The object beside a stream, or beside another companion, has the property. -/
def First (fine : σ → Prop) (pair : σ × τ) : Prop :=
  fine pair.1

/-- However the call ends, it leaves an object with the property it found it with. -/
def Keeps (fine : σ → Prop) (call : Edit σ α) : Prop :=
  ∀ object, fine object → fine (call.after object)

namespace Keeps

theorem of_ok {call : Edit σ α} {object changed : σ} {answer : α} (keeps : Keeps fine call)
    (held : fine object) (ran : call object = .ok answer changed) : fine changed := by
  have kept := keeps object held
  rwa [after, ran] at kept

theorem of_error {call : Edit σ α} {object changed : σ} {failure : Failure}
    (keeps : Keeps fine call) (held : fine object) (ran : call object = .error failure changed) :
    fine changed := by
  have kept := keeps object held
  rwa [after, ran] at kept

/-- A call that goes on according to what its first step answered and left. -/
theorem bind_of {call : Edit σ α} {next : α → Edit σ β} (first : Keeps fine call)
    (later : ∀ object answer between, fine object → call object = .ok answer between →
      fine between → fine ((next answer).after between)) : Keeps fine (call >>= next) := by
  intro object held
  cases ran : call object with
  | ok answer between =>
    rw [after_bind ran]
    exact later object answer between held ran (first.of_ok held ran)
  | error failure between =>
    rw [after_bind_of_error ran]
    exact first.of_error held ran

theorem bind {call : Edit σ α} {next : α → Edit σ β} (first : Keeps fine call)
    (later : ∀ answer, Keeps fine (next answer)) : Keeps fine (call >>= next) := by
  apply first.bind_of
  intro _ answer between _ _ kept
  exact later answer between kept

theorem pure (answer : α) : Keeps fine (Pure.pure answer : Edit σ α) :=
  fun _ held => held

theorem get : Keeps fine (MonadState.get : Edit σ σ) :=
  fun _ held => held

theorem ite {condition : Prop} [Decidable condition] {call other : Edit σ α}
    (here : Keeps fine call) (there : Keeps fine other) :
    Keeps fine (if condition then call else other) := by
  by_cases holds : condition
  · rwa [if_pos holds]
  · rwa [if_neg holds]

theorem ask (question : σ → Except Failure α) : Keeps fine (Edit.ask question) := by
  intro object held
  cases asked : question object <;> simpa only [after, Edit.ask, asked] using held

theorem change {next : σ → Except Failure σ}
    (stays : ∀ object changed, fine object → next object = .ok changed → fine changed) :
    Keeps fine (Edit.change next) := by
  intro object held
  cases ran : next object with
  | ok changed =>
    rw [after, change_of_ok ran]
    exact stays object changed held ran
  | error failure =>
    rw [after, change_of_error ran]
    exact held

theorem modify {next : σ → σ} (stays : ∀ object, fine object → fine (next object)) :
    Keeps fine (MonadStateOf.modifyGet fun object => ((), next object) : Edit σ Unit) :=
  stays

theorem within {view : σ → τ} {put : σ → τ → σ} {call : Edit τ α} (keeps : Keeps part call)
    (seen : ∀ object, fine object → part (view object))
    (stored : ∀ object component, fine object → part component → fine (put object component)) :
    Keeps fine (Edit.within view put call) := by
  intro object held
  have kept := keeps (view object) (seen object held)
  cases ran : call (view object) with
  | ok answer component =>
    simp only [after, Edit.within, ran] at kept ⊢
    exact stored object component held kept
  | error failure component =>
    simp only [after, Edit.within, ran] at kept ⊢
    exact stored object component held kept

/-- Nothing that is done to a component matters that the property does not look at. -/
theorem elsewhere {view : σ → τ} {put : σ → τ → σ} (call : Edit τ α)
    (stored : ∀ object component, fine object → fine (put object component)) :
    Keeps fine (Edit.within view put call) := by
  have anything : Keeps (fun _ : τ => True) call := fun _ _ => trivial
  exact anything.within (fun _ _ => trivial) fun object component held _ =>
    stored object component held

theorem onObject {call : Edit σ α} (keeps : Keeps fine call) :
    Keeps (First fine) (Edit.onObject call) :=
  keeps.within (fun _ held => held) fun _ _ _ kept => kept

/-- Taking from the stream does nothing to the object. -/
theorem fromStream (call : Edit Stream α) : Keeps (First fine) (Edit.fromStream call) :=
  .elsewhere call fun _ _ held => held

theorem exchange {next : σ → Except Failure (α × σ)}
    (stays : ∀ object answer changed, fine object → next object = .ok (answer, changed) →
      fine changed) : Keeps fine (Edit.exchange next) := by
  intro object held
  cases ran : next object with
  | ok pair => simpa only [after, Edit.exchange, ran] using stays object pair.1 pair.2 held ran
  | error failure => simpa only [after, Edit.exchange, ran] using held

/-- A change of a component, if putting a component back as it is changes nothing. -/
theorem within_change {view : σ → τ} {put : σ → τ → σ} {next : τ → Except Failure τ}
    (same : ∀ object, put object (view object) = object)
    (stays : ∀ object component, fine object → next (view object) = .ok component →
      fine (put object component)) : Keeps fine (Edit.within view put (Edit.change next)) := by
  intro object held
  cases ran : next (view object) with
  | ok component =>
    simpa only [after, Edit.within, Edit.change, ran] using stays object component held ran
  | error failure => simpa only [after, Edit.within, Edit.change, ran, same] using held

/-- Reading a part keeps what holds of the whole as long as it holds of the part. -/
theorem readPart [Fragment τ] {view : σ → τ} {put : σ → τ → σ}
    (reads : Keeps (First part) (Fragment.read : Edit (τ × Stream) Nat))
    (seen : ∀ object, fine object → part (view object))
    (stored : ∀ object component, fine object → part component → fine (put object component)) :
    Keeps (First fine) (Edit.readPart view put) :=
  reads.within (fun pair held => seen pair.1 held) fun pair component held kept =>
    stored pair.1 component.1 held kept

/-- What goes on with an answer of the stream may rely on what is true of all its answers. -/
theorem bind_fromStream {call : Edit Stream α} {next : α → Edit (σ × Stream) β} (good : α → Prop)
    (answers : ∀ stream answer left, call stream = .ok answer left → good answer)
    (later : ∀ answer, good answer → Keeps (First fine) (next answer)) :
    Keeps (First fine) (Edit.fromStream call >>= next) := by
  refine .bind_of (.fromStream call) fun (_, stream) answer between _ ran kept => ?_
  obtain ⟨answered, -⟩ := Edit.fromStream_eq_ok_iff.mp ran
  exact later answer (answers stream answer between.2 answered) between kept

/-- A fragment that was read on its own is what reading keeps it. -/
theorem bind_readNew [Fragment τ] {fragment : τ} {next : Nat × τ → Edit (σ × Stream) β}
    (reads : Keeps (First part) (Fragment.read : Edit (τ × Stream) Nat)) (begun : part fragment)
    (later : ∀ count read, part read → Keeps (First fine) (next (count, read))) :
    Keeps (First fine) (Edit.fromStream (Edit.readNew fragment) >>= next) := by
  refine bind_fromStream (fun answer => part answer.2) (fun stream answer left ran => ?_)
    fun answer kept => later answer.1 answer.2 kept
  obtain ⟨count, read⟩ := answer
  have pair : First part (fragment, stream) := begun
  exact reads.of_ok pair (Edit.readNew_eq_ok_iff.mp ran)

/-- A call on every member of a list keeps of all of them what it keeps of each. -/
theorem each {call : Edit σ Unit} (keeps : Keeps fine call) :
    Keeps (fun items => ∀ item ∈ items, fine item) (Edit.each call) := by
  intro items
  induction items with
  | nil => exact fun held => held
  | cons first rest ih =>
    intro held
    obtain ⟨here, others⟩ := List.forall_mem_cons.mp held
    have later := ih others
    cases ran : call first with
    | error failure left =>
      simp only [after, Edit.each, ran]
      exact List.forall_mem_cons.mpr ⟨keeps.of_error here ran, others⟩
    | ok answer changed =>
      have kept := keeps.of_ok here ran
      cases ranOn : Edit.each call rest <;>
        (simp only [after, Edit.each, ran, ranOn] at later ⊢
         exact List.forall_mem_cons.mpr ⟨kept, later⟩)

/-- The same of a call that hands a companion on from member to member. -/
theorem eachWith {call : Edit (σ × τ) Nat} (keeps : Keeps (First fine) call) :
    Keeps (First fun items => ∀ item ∈ items, fine item) (Edit.eachWith call) := by
  rintro ⟨items, companion⟩
  induction items generalizing companion with
  | nil =>
    intro held
    simpa only [after, Edit.eachWith] using held
  | cons first rest ih =>
    intro held
    obtain ⟨here, others⟩ := List.forall_mem_cons.mp held
    have begun : First fine (first, companion) := here
    cases ran : call (first, companion) with
    | error failure left =>
      have kept : fine left.1 := keeps.of_error begun ran
      simp only [after, Edit.eachWith, ran]
      exact List.forall_mem_cons.mpr ⟨kept, others⟩
    | ok count left =>
      have kept : fine left.1 := keeps.of_ok begun ran
      have later := ih left.2 others
      cases ranOn : Edit.eachWith call (rest, left.2) <;>
        (simp only [after, Edit.eachWith, ran, ranOn] at later ⊢
         exact List.forall_mem_cons.mpr ⟨kept, later⟩)

/-- A member that the call leaves alone stays in its place, whatever becomes of the others. -/
theorem each_at {call : Edit σ Unit} {settled : σ} (rests : call settled = .ok () settled)
    (index : Nat) : Keeps (fun items => items[index]? = some settled) (Edit.each call) := by
  intro items
  induction items generalizing index with
  | nil => exact fun held => held
  | cons first rest ih =>
    intro held
    cases ran : call first with
    | error failure changed =>
      simp only [after, Edit.each, ran]
      cases index with
      | zero =>
        obtain rfl : first = settled := by simpa using held
        cases ran.symm.trans rests
      | succ index => simpa using held
    | ok answer changed =>
      have kept : (changed :: Edit.after (Edit.each call) rest)[index]? = some settled := by
        cases index with
        | zero =>
          obtain rfl : first = settled := by simpa using held
          obtain rfl : changed = first := by
            cases ran.symm.trans rests
            rfl
          rfl
        | succ index => simpa using ih index (by simpa using held)
      cases ranOn : Edit.each call rest with
      | error failure others => simpa only [after, Edit.each, ran, ranOn] using kept
      | ok answer others => simpa only [after, Edit.each, ran, ranOn] using kept

end Keeps

/-- What a call on every member keeps of each is kept of all of them. -/
theorem eachWith_map {call : Edit (α × τ) Nat} {view : α → β}
    (keeps : ∀ value, Keeps (First (view · = value)) call) (items : List α) (companion : τ) :
    ((after (eachWith call) (items, companion)).1).map view = items.map view := by
  induction items generalizing companion with
  | nil => simp only [after, eachWith]
  | cons first rest ih =>
    have here : First (view · = view first) (first, companion) := rfl
    cases ran : call (first, companion) with
    | error failure left =>
      have kept : view left.1 = view first := (keeps (view first)).of_error here ran
      simp only [after, eachWith, ran, List.map_cons, kept]
    | ok count left =>
      have kept : view left.1 = view first := (keeps (view first)).of_ok here ran
      have later := ih left.2
      cases ranOn : eachWith call (rest, left.2) <;>
        simp only [after, ranOn] at later <;>
        simp only [after, eachWith, ran, ranOn, List.map_cons, kept, later]

end Edit

end SecureBoot
