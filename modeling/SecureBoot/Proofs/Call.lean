import Mathlib.Algebra.Group.Nat.Defs
import Mathlib.Data.List.Forall2
import Mathlib.Tactic.Common
import SecureBoot.Fragment

/-!
How calls end. A call written in `do` notation succeeds exactly when its steps succeed one after
the other; the rules here take such a success apart, for calls that only answer and for edits.
-/

namespace SecureBoot

section Answers

variable {α β : Type}

@[simp] theorem exists_unit_iff {holds : Unit → Prop} : (∃ answer, holds answer) ↔ holds () :=
  ⟨fun ⟨_, held⟩ => held, fun held => ⟨(), held⟩⟩

@[simp] theorem bind_eq_ok_iff {call : Except Failure α} {next : α → Except Failure β} {answer : β} :
    (call >>= next) = .ok answer ↔ ∃ first, call = .ok first ∧ next first = .ok answer := by
  cases call <;> simp [bind, Except.bind]

@[simp] theorem pure_eq_ok_iff {value answer : α} :
    (pure value : Except Failure α) = .ok answer ↔ value = answer := by
  simp [pure, Except.pure]

@[simp] theorem functor_map_eq_ok_iff {call : Except Failure α} {change : α → β} {answer : β} :
    (change <$> call) = .ok answer ↔ ∃ first, call = .ok first ∧ change first = answer := by
  cases call <;> simp [Functor.map, Except.map]

@[simp] theorem map_eq_ok_iff {call : Except Failure α} {change : α → β} {answer : β} :
    call.map change = .ok answer ↔ ∃ first, call = .ok first ∧ change first = answer := by
  cases call <;> simp [Except.map]

theorem bind_of_ok {call : Except Failure α} {next : α → Except Failure β} {answer : α}
    (ran : call = .ok answer) : (call >>= next) = next answer := by
  rw [ran]
  rfl

theorem require_of {condition : Prop} [Decidable condition] {failure : Failure}
    (holds : condition) : require condition failure = .ok () :=
  require_eq_ok_iff.mpr holds

theorem require_bind_of_not {condition : Prop} [Decidable condition] {failure : Failure}
    {next : Unit → Except Failure α} (fails : ¬ condition) :
    (require condition failure >>= next) = .error failure := by
  rw [require, if_neg fails]
  rfl

/-- A call that was evaluated to a view of its answer has that answer. -/
theorem exists_of_map_eq_some {call : Except Failure α} {view : α → β} {value : β}
    (there : call.toOption.map view = some value) :
    ∃ answer, call = .ok answer ∧ view answer = value := by
  cases call with
  | error failure => simp [Except.toOption] at there
  | ok answer => exact ⟨answer, rfl, by simpa [Except.toOption] using there⟩

/-- A call on every member of a list answers member by member. -/
theorem mapM_eq_ok_iff {call : α → Except Failure β} {items : List α} {answers : List β} :
    items.mapM call = .ok answers ↔
      List.Forall₂ (fun item answer => call item = .ok answer) items answers := by
  induction items generalizing answers with
  | nil =>
    rw [List.mapM_nil, pure_eq_ok_iff, List.forall₂_nil_left_iff]
    exact eq_comm
  | cons first rest ih =>
    simp only [List.mapM_cons, bind_eq_ok_iff, pure_eq_ok_iff, ih, List.forall₂_cons_left_iff]
    constructor
    · rintro ⟨answer, here, others, more, rfl⟩
      exact ⟨answer, others, here, more, rfl⟩
    · rintro ⟨answer, others, here, more, rfl⟩
      exact ⟨answer, here, others, more, rfl⟩

/-- Of two lists that are related member by member, each member of the second has one in the first. -/
theorem exists_of_mem_right {related : α → β → Prop} {items : List α} {answers : List β} {answer : β}
    (pairs : List.Forall₂ related items answers) (member : answer ∈ answers) :
    ∃ item ∈ items, related item answer := by
  induction pairs with
  | nil => cases member
  | cons first _ ih =>
    rcases List.mem_cons.mp member with rfl | later
    · exact ⟨_, List.mem_cons_self, first⟩
    · obtain ⟨item, inside, found⟩ := ih later
      exact ⟨item, List.mem_cons_of_mem _ inside, found⟩

@[simp] theorem checkBound_eq_ok_iff {size : Nat} {limit : Option Nat} {answer : Unit} :
    checkBound size limit = .ok answer ↔ ∀ most, limit = some most → size ≤ most := by
  cases limit <;> simp [checkBound]

end Answers

namespace Edit

variable {σ τ α β : Type}

@[simp] theorem bind_eq_ok_iff {call : Edit σ α} {next : α → Edit σ β} {object changed : σ}
    {answer : β} :
    (call >>= next) object = .ok answer changed ↔
      ∃ first between, call object = .ok first between ∧ next first between = .ok answer changed := by
  cases ran : call object with
  | ok first between => simp [Edit.bind_of_ok ran, and_assoc]
  | error failure between => simp [Edit.bind_of_error ran]

/-- If what follows a call cannot fail, only the call can. -/
theorem bind_eq_error_iff {call : Edit σ α} {next : α → Edit σ β} {object left : σ}
    {failure : Failure}
    (answers : ∀ first between, ∃ answer changed, next first between = .ok answer changed) :
    (call >>= next) object = .error failure left ↔ call object = .error failure left := by
  cases ran : call object with
  | ok first between =>
    obtain ⟨answer, changed, ranOn⟩ := answers first between
    simp [Edit.bind_of_ok ran, ranOn]
  | error reason between => simp [Edit.bind_of_error ran]

@[simp] theorem pure_eq_ok_iff {value answer : α} {object changed : σ} :
    (pure value : Edit σ α) object = .ok answer changed ↔ value = answer ∧ object = changed := by
  simp [pure, EStateM.pure]

@[simp] theorem map_eq_ok_iff {call : Edit σ α} {change : α → β} {object changed : σ} {answer : β} :
    (change <$> call) object = .ok answer changed ↔
      ∃ first, call object = .ok first changed ∧ change first = answer := by
  cases ran : call object <;> simp [Functor.map, EStateM.map, ran, and_comm]

theorem map_eq_error_iff {call : Edit σ α} {change : α → β} {object left : σ} {failure : Failure} :
    (change <$> call) object = .error failure left ↔ call object = .error failure left := by
  cases ran : call object <;> simp [Functor.map, EStateM.map, ran]

@[simp] theorem get_eq_ok_iff {object answer changed : σ} :
    (get : Edit σ σ) object = .ok answer changed ↔ object = answer ∧ object = changed := by
  rw [show (get : Edit σ σ) object = .ok object object from rfl, EStateM.Result.ok.injEq]

@[simp] theorem set_eq_ok_iff {object value changed : σ} {answer : PUnit} :
    (set value : Edit σ PUnit) object = .ok answer changed ↔ value = changed := by
  rw [show (set value : Edit σ PUnit) object = .ok answer value from rfl, EStateM.Result.ok.injEq,
    eq_self, true_and]

@[simp] theorem modify_eq_ok_iff {next : σ → σ} {object changed : σ} {answer : PUnit} :
    (modify next : Edit σ PUnit) object = .ok answer changed ↔ next object = changed := by
  rw [show (modify next : Edit σ PUnit) object = .ok answer (next object) from rfl,
    EStateM.Result.ok.injEq, eq_self, true_and]

@[simp] theorem throw_ne_ok {failure : Failure} {object changed : σ} {answer : α} :
    (throw failure : Edit σ α) object ≠ .ok answer changed :=
  fun ran => nomatch (show EStateM.Result.error failure object = .ok answer changed from ran)

@[simp] theorem ask_eq_ok_iff {question : σ → Except Failure α} {object changed : σ} {answer : α} :
    ask question object = .ok answer changed ↔ question object = .ok answer ∧ object = changed := by
  cases asked : question object <;> simp [ask, asked]

@[simp] theorem change_eq_ok_iff {next : σ → Except Failure σ} {object changed : σ} {answer : Unit} :
    change next object = .ok answer changed ↔ next object = .ok changed := by
  cases ran : next object <;> simp [change, ran]

@[simp] theorem exchange_eq_ok_iff {next : σ → Except Failure (α × σ)} {object changed : σ}
    {answer : α} :
    exchange next object = .ok answer changed ↔ next object = .ok (answer, changed) := by
  cases ran : next object with
  | error failure => simp [exchange, ran]
  | ok pair =>
    obtain ⟨first, second⟩ := pair
    simp [exchange, ran]

@[simp] theorem exchange_eq_error_iff {next : σ → Except Failure (α × σ)} {object left : σ}
    {failure : Failure} :
    exchange next object = .error failure left ↔ next object = .error failure ∧ object = left := by
  cases ran : next object with
  | error refusal => simp [exchange, ran]
  | ok pair =>
    obtain ⟨first, second⟩ := pair
    simp [exchange, ran]

@[simp] theorem within_eq_ok_iff {view : σ → τ} {put : σ → τ → σ} {call : Edit τ α}
    {object changed : σ} {answer : α} :
    within view put call object = .ok answer changed ↔
      ∃ component, call (view object) = .ok answer component ∧ put object component = changed := by
  cases ran : call (view object) <;> simp [within, ran, and_assoc]

@[simp] theorem result_eq_ok_iff {call : Edit σ α} {object changed : σ} :
    call.result object = .ok changed ↔ ∃ answer, call object = .ok answer changed := by
  cases ran : call object <;> simp [result, ran]

@[simp] theorem answer_eq_ok_iff {call : Edit σ α} {object : σ} {value : α} :
    call.answer object = .ok value ↔ ∃ changed, call object = .ok value changed := by
  cases ran : call object <;> simp [answer, ran]

@[simp] theorem fromStream_eq_ok_iff {call : Edit Stream α} {object changed : σ}
    {stream left : Stream} {answer : α} :
    (fromStream call : Edit (σ × Stream) α) (object, stream) = .ok answer (changed, left) ↔
      call stream = .ok answer left ∧ object = changed := by
  simp [fromStream, and_assoc, and_comm]

@[simp] theorem onObject_eq_ok_iff {call : Edit σ α} {object changed : σ} {stream left : Stream}
    {answer : α} :
    (onObject call : Edit (σ × Stream) α) (object, stream) = .ok answer (changed, left) ↔
      call object = .ok answer changed ∧ stream = left := by
  simp [onObject, and_left_comm]

@[simp] theorem readNew_eq_ok_iff [Fragment τ] {fragment read : τ} {stream left : Stream}
    {count : Nat} :
    readNew fragment stream = .ok (count, read) left ↔
      Fragment.read (fragment, stream) = .ok count (read, left) := by
  cases ran : Fragment.read (fragment, stream) with
  | ok count pair =>
    obtain ⟨first, second⟩ := pair
    simp [readNew, ran, and_assoc]
  | error failure pair => simp [readNew, ran]

theorem after_change_of_ok {object changed : σ} (next : σ → Except Failure σ)
    (accepted : next object = .ok changed) : (change next).after object = changed := by
  rw [after, change_of_ok accepted]

theorem after_change_of_error {object : σ} {failure : Failure} (next : σ → Except Failure σ)
    (refused : next object = .error failure) : (change next).after object = object := by
  rw [after, change_of_error refused]

/-- A call on every member of a list succeeds when it succeeds on each of them. -/
theorem each_eq_ok_iff {call : Edit α Unit} {items changed : List α} {answer : Unit} :
    each call items = .ok answer changed ↔
      List.Forall₂ (fun item other => call item = .ok () other) items changed := by
  induction items generalizing changed with
  | nil => simp [each, eq_comm]
  | cons first rest ih =>
    cases ran : call first with
    | error failure other => simp [each, ran, List.forall₂_cons_left_iff]
    | ok done other =>
      cases more : each call rest with
      | error failure others =>
        simp only [each, ran, more, reduceCtorEq, List.forall₂_cons_left_iff, false_iff]
        rintro ⟨_, tail, _, matched, rfl⟩
        simp [ih.mpr matched] at more
      | ok done others =>
        simp only [each, ran, more, List.forall₂_cons_left_iff, ← ih, EStateM.Result.ok.injEq,
          true_and]
        constructor
        · rintro rfl
          exact ⟨other, others, rfl, rfl, rfl⟩
        · rintro ⟨_, _, rfl, rfl, rfl⟩
          rfl

/-- Lists whose members are pairwise equal are equal. -/
theorem eq_of_forall₂ {relation : α → α → Prop} {items others : List α}
    (same : ∀ item ∈ items, ∀ other, relation item other → other = item)
    (related : List.Forall₂ relation items others) : others = items := by
  induction related with
  | nil => rfl
  | cons here _ ih =>
    obtain ⟨first, rest⟩ := List.forall_mem_cons.mp same
    rw [first _ here, ih rest]

/-- What holds of everything related to a member holds of every member of the other list. -/
theorem forall_of_forall₂ {relation : α → β → Prop} {good : β → Prop} {items : List α}
    {others : List β} (fine : ∀ item ∈ items, ∀ other, relation item other → good other)
    (related : List.Forall₂ relation items others) : ∀ other ∈ others, good other := by
  induction related with
  | nil => simp
  | cons here _ ih =>
    obtain ⟨first, rest⟩ := List.forall_mem_cons.mp fine
    exact List.forall_mem_cons.mpr ⟨first _ here, ih rest⟩

end Edit
end SecureBoot
