import SecureBoot.Failure

/-!
Calls on an object that may fail. An `Edit` ends with an answer or a failure and, in both cases,
with the object as the call leaves it: a failing call may have done part of its work. A call that
leaves the object alone when it fails is a plain function into `Except`, made an edit by `change`
or `ask`.
-/

namespace SecureBoot

/-- A call on an object of type `σ` that answers with an `α` or fails. -/
abbrev Edit (σ α : Type) := EStateM Failure σ α

namespace Edit

variable {σ τ ρ α β : Type}

/-- Replace the object, or fail and leave it as it is. -/
def change (next : σ → Except Failure σ) : Edit σ Unit := fun object =>
  match next object with
  | .ok changed => .ok () changed
  | .error failure => .error failure object

/-- Answer a question about the object. -/
def ask (question : σ → Except Failure α) : Edit σ α := fun object =>
  match question object with
  | .ok answer => .ok answer object
  | .error failure => .error failure object

/-- Answer and replace the object, or fail and leave it as it is. -/
def exchange (next : σ → Except Failure (α × σ)) : Edit σ α := fun object =>
  match next object with
  | .ok (answer, changed) => .ok answer changed
  | .error failure => .error failure object

/-- Carry out a call on a component of the object. -/
def within (view : σ → τ) (put : σ → τ → σ) (call : Edit τ α) : Edit σ α := fun object =>
  match call (view object) with
  | .ok answer component => .ok answer (put object component)
  | .error failure component => .error failure (put object component)

/-- The answer of a call, or its failure. -/
def answer (call : Edit σ α) (object : σ) : Except Failure α :=
  match call object with
  | .ok answer _ => .ok answer
  | .error failure _ => .error failure

/-- The object a call leaves behind, whether it failed or not. -/
def after (call : Edit σ α) (object : σ) : σ :=
  match call object with
  | .ok _ object => object
  | .error _ object => object

/-- The object a successful call leaves behind. -/
def result (call : Edit σ α) (object : σ) : Except Failure σ :=
  match call object with
  | .ok _ object => .ok object
  | .error failure _ => .error failure

/-- Carry out a call on every member of a list in turn, up to the first failure. -/
def each (call : Edit α Unit) : List α → EStateM.Result Failure (List α) Unit
  | [] => .ok () []
  | first :: rest =>
    match call first with
    | .error failure first => .error failure (first :: rest)
    | .ok _ first =>
      match each call rest with
      | .error failure rest => .error failure (first :: rest)
      | .ok _ rest => .ok () (first :: rest)

/-- Carry out a call on every member of a list in turn, each beside a companion that is handed
on, and add up the answers. -/
def eachWith (call : Edit (α × τ) Nat) : List α × τ → EStateM.Result Failure (List α × τ) Nat
  | ([], companion) => .ok 0 ([], companion)
  | (first :: rest, companion) =>
    match call (first, companion) with
    | .error failure (first, companion) => .error failure (first :: rest, companion)
    | .ok count (first, companion) =>
      match eachWith call (rest, companion) with
      | .error failure (rest, companion) => .error failure (first :: rest, companion)
      | .ok more (rest, companion) => .ok (count + more) (first :: rest, companion)

theorem bind_of_ok {call : Edit σ α} {next : α → Edit σ β} {object changed : σ} {answer : α}
    (ran : call object = .ok answer changed) : (call >>= next) object = next answer changed := by
  simp only [bind, EStateM.bind, ran]

theorem bind_of_error {call : Edit σ α} {next : α → Edit σ β} {object changed : σ}
    {failure : Failure} (ran : call object = .error failure changed) :
    (call >>= next) object = .error failure changed := by
  simp only [bind, EStateM.bind, ran]

theorem change_of_ok {next : σ → Except Failure σ} {object changed : σ}
    (accepted : next object = .ok changed) : change next object = .ok () changed := by
  simp only [change, accepted]

theorem change_of_error {next : σ → Except Failure σ} {object : σ} {failure : Failure}
    (refused : next object = .error failure) : change next object = .error failure object := by
  simp only [change, refused]

end Edit
end SecureBoot
