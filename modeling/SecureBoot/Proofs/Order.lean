import SecureBoot.Chain.Order
import SecureBoot.Proofs.Call

/-!
The order of chain entries, said once. `WellOrdered` is what `checkOrder` accepts, and the state of
a chain admits exactly the kinds that keep it well ordered.
-/

namespace SecureBoot

variable {kind : EntryKind} {kinds later : List EntryKind} {answer : Unit}

/-- A root entry comes first and no later, and a block0 entry comes only last. -/
def WellOrdered : List EntryKind → Prop
  | [] => True
  | first :: rest =>
    first.isRoot = true ∧ (∀ kind ∈ rest, kind.isRoot = false) ∧
      .block0 ∉ (first :: rest).dropLast

theorem checkSingleRoot_eq_ok_iff :
    checkSingleRoot kinds = .ok answer ↔ ∀ kind ∈ kinds, kind.isRoot = false := by
  rw [checkSingleRoot]
  cases found : kinds.findIdx? EntryKind.isRoot with
  | none => simpa using List.findIdx?_eq_none_iff.mp found
  | some index =>
    simp only [reduceCtorEq, false_iff, not_forall]
    obtain ⟨inside, root, -⟩ := List.findIdx?_eq_some_iff_getElem.mp found
    exact ⟨kinds[index], List.getElem_mem inside, by simp [root]⟩

theorem checkEnd_eq_ok_iff : checkEnd kinds = .ok answer ↔ .block0 ∉ kinds.dropLast := by
  rw [checkEnd]
  cases found : kinds.dropLast.findIdx? (· = .block0) with
  | none =>
    have absent := List.findIdx?_eq_none_iff.mp found
    simp only [true_iff]
    intro inside
    simpa using absent _ inside
  | some index =>
    simp only [reduceCtorEq, false_iff, not_not]
    obtain ⟨inside, closing, -⟩ := List.findIdx?_eq_some_iff_getElem.mp found
    have here := List.getElem_mem inside
    rwa [of_decide_eq_true closing] at here

/-- Between a root and the last entry only public key entries are left. -/
theorem checkSecond_of_wellOrdered {first : EntryKind} (ordered : WellOrdered (first :: kinds)) :
    checkSecond kinds = .ok () := by
  obtain ⟨-, single, inner⟩ := ordered
  match kinds with
  | [] | [_] => rfl
  | second :: third :: others =>
    rw [checkSecond, require_eq_ok_iff]
    have notRoot := single second (by simp)
    have notClosing : second ≠ .block0 := by
      rintro rfl
      exact inner (by simp)
    cases second <;> simp_all [EntryKind.isRoot]

theorem checkOrder_eq_ok_iff : checkOrder kinds = .ok answer ↔ WellOrdered kinds := by
  cases kinds with
  | nil => simp [checkOrder, WellOrdered]
  | cons first rest =>
    simp only [checkOrder, bind_eq_ok_iff, require_eq_ok_iff, exists_unit_iff,
      checkSingleRoot_eq_ok_iff, checkEnd_eq_ok_iff]
    constructor
    · rintro ⟨root, single, -, inner⟩
      exact ⟨root, single, inner⟩
    · intro ordered
      exact ⟨ordered.1, ordered.2.1, checkSecond_of_wellOrdered ordered, ordered.2.2⟩

theorem wellOrdered_of_append (ordered : WellOrdered (kinds ++ later)) : WellOrdered kinds := by
  cases kinds with
  | nil => trivial
  | cons first rest =>
    obtain ⟨root, single, inner⟩ := ordered
    refine ⟨root, fun kind member => single kind (List.mem_append_left _ member), fun early => inner ?_⟩
    cases later with
    | nil => simpa using early
    | cons next others =>
      have whole : (first :: rest ++ next :: others).dropLast =
          first :: rest ++ (next :: others).dropLast :=
        List.dropLast_append_of_ne_nil (List.cons_ne_nil next others)
      rw [List.cons_append] at whole
      show EntryKind.block0 ∈ (first :: (rest ++ next :: others)).dropLast
      rw [whole]
      exact List.mem_append_left _ (List.dropLast_subset _ early)

/-- Nothing follows a block0 entry. -/
theorem eq_nil_of_wellOrdered_block0 (ordered : WellOrdered (kinds ++ .block0 :: later)) :
    later = [] := by
  by_contra more
  have inside : EntryKind.block0 ∈ (kinds ++ .block0 :: later).dropLast := by
    rw [List.dropLast_append_of_ne_nil (List.cons_ne_nil _ _), List.dropLast_cons_of_ne_nil more]
    simp
  cases kinds with
  | nil => exact ordered.2.2 inside
  | cons first rest => exact ordered.2.2 inside

theorem ofKinds_eq_terminated_iff :
    ChainState.ofKinds kinds = .terminated ↔ kinds.getLast? = some .block0 := by
  rw [ChainState.ofKinds]
  split
  · simp [*]
  · simp [*]
  · split <;> simp_all

/-- A well-ordered chain goes on with a kind that is no root, unless it is terminated. -/
theorem wellOrdered_append_iff {first : EntryKind} (ordered : WellOrdered (first :: kinds)) :
    WellOrdered (first :: kinds ++ [kind]) ↔
      (first :: kinds).getLast? ≠ some .block0 ∧ kind.isRoot = false := by
  obtain ⟨root, single, inner⟩ := ordered
  have split := List.dropLast_append_getLast (List.cons_ne_nil first kinds)
  have last := List.getLast?_eq_some_getLast (List.cons_ne_nil first kinds)
  have inside : EntryKind.block0 ∈ (first :: kinds ++ [kind]).dropLast ↔
      (first :: kinds).getLast? = some .block0 := by
    rw [List.dropLast_concat, last, Option.some_inj]
    constructor
    · intro member
      rw [← split, List.mem_append, List.mem_singleton] at member
      exact (member.resolve_left inner).symm
    · intro closing
      rw [← closing]
      exact List.getLast_mem _
  constructor
  · rintro ⟨-, later, early⟩
    exact ⟨fun closing => early (inside.mpr closing), later kind (by simp)⟩
  · rintro ⟨going, notRoot⟩
    refine ⟨root, ?_, fun early => going (inside.mp early)⟩
    intro other member
    rcases List.mem_append.mp member with before | here
    · exact single other before
    · rwa [List.mem_singleton.mp here]

/-- The state of a well-ordered chain admits the kinds that leave it well ordered. -/
theorem accept_eq_ok_iff (ordered : WellOrdered kinds) :
    (ChainState.ofKinds kinds).accept kind = .ok answer ↔ WellOrdered (kinds ++ [kind]) := by
  cases kinds with
  | nil => simp [ChainState.ofKinds, ChainState.accept, WellOrdered]
  | cons first rest =>
    rw [wellOrdered_append_iff ordered]
    by_cases closing : (first :: rest).getLast? = some .block0
    · rw [ofKinds_eq_terminated_iff.mpr closing]
      simp [ChainState.accept, closing]
    · have going := mt ofKinds_eq_terminated_iff.mp closing
      have begun : ChainState.ofKinds (first :: rest) ≠ .empty := by
        rw [ChainState.ofKinds, List.getLast?_eq_some_getLast (List.cons_ne_nil first rest)]
        split
        · simp_all
        · simp
        · split <;> simp
      cases state : ChainState.ofKinds (first :: rest) with
      | empty => exact absurd state begun
      | terminated => exact absurd state going
      | hasRoot | hasRootAndKeys count => simp [ChainState.accept, closing]

end SecureBoot
