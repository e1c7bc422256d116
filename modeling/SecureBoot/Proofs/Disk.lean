import SecureBoot.Files.Disk
import SecureBoot.Proofs.Call

/-!
Disks that are written to. Putting a file somewhere changes what that one place holds. As it never
takes the place of a directory, every path leads where it led before, and the file is found under the
path it was written to.
-/

namespace SecureBoot.Files.Disk

variable {disk changed : Disk} {place other : Place} {node : Node} {bytes : Bytes} {path : String}

theorem lookup_filter_ne {nodes : List (Place × Node)} (differ : other ≠ place) :
    (nodes.filter fun (taken, _) => taken != place).lookup other = nodes.lookup other := by
  induction nodes with
  | nil => rfl
  | cons first rest ih =>
    obtain ⟨taken, held⟩ := first
    by_cases same : taken = place
    · subst same
      rw [List.filter_cons_of_neg (by simp), ih, List.lookup_cons, beq_false_of_ne differ]
    · rw [List.filter_cons_of_pos (by simpa using same), List.lookup_cons, List.lookup_cons, ih]

theorem lookup_filter_self {nodes : List (Place × Node)} :
    (nodes.filter fun (taken, _) => taken != place).lookup place = none := by
  rw [List.lookup_eq_none_iff]
  intro pair member
  obtain ⟨-, kept⟩ := List.mem_filter.mp member
  simpa [bne_comm] using kept

/-- A place holds what was put there. -/
theorem node?_put_self (below : place ≠ []) : (disk.put place node).node? place = some node := by
  rw [node?, if_neg below, put, List.lookup_append, lookup_filter_self, Option.none_or,
    List.lookup_cons_self]

/-- Every other place holds what it held. -/
theorem node?_put_of_ne (differ : other ≠ place) :
    (disk.put place node).node? other = disk.node? other := by
  rw [node?, node?, put, List.lookup_append, lookup_filter_ne differ, List.lookup_cons,
    beq_false_of_ne differ]
  exact congrArg _ (Option.or_none)

/-- A file in a place that was no directory leaves the directories alone. -/
theorem directory_put_file (free : disk.node? place ≠ some .directory) :
    (disk.put place (.file bytes)).node? other = some .directory ↔
      disk.node? other = some .directory := by
  by_cases same : other = place
  · subst same
    have below : other ≠ [] := by
      rintro rfl
      exact free rfl
    rw [node?_put_self below]
    constructor
    · intro found
      cases found
    · intro found
      exact absurd found free
  · rw [node?_put_of_ne same]

/-- Where segments lead depends on the directories alone. -/
theorem walk_congr
    (same : ∀ place, changed.node? place = some .directory ↔ disk.node? place = some .directory)
    (place : Place) (segments : List String) :
    changed.walk place segments = disk.walk place segments := by
  induction segments generalizing place with
  | nil => rfl
  | cons segment rest ih =>
    rw [walk, walk]
    simp only [same, ih]

theorem resolve_put_file (free : disk.node? place ≠ some .directory) :
    (disk.put place (.file bytes)).resolve path = disk.resolve path := by
  rw [resolve, resolve, walk_congr fun _ => directory_put_file free]
  rfl

/-- A file that was written is found. -/
theorem find?_of_write {answer : Unit} (ran : write path bytes disk = .ok answer changed) :
    changed.find? path = some (.file bytes) := by
  rw [write] at ran
  cases leads : disk.resolve path with
  | none => simp [leads] at ran
  | some place =>
    simp only [leads] at ran
    have free : disk.node? place ≠ some .directory := by
      intro taken
      simp [taken] at ran
    obtain rfl : disk.put place (.file bytes) = changed := by
      cases held : disk.node? place with
      | none => simpa [held] using ran
      | some node =>
        cases node with
        | directory => exact absurd held free
        | file old => simpa [held] using ran
    have below : place ≠ [] := by
      rintro rfl
      exact free rfl
    rw [find?, resolve_put_file free, leads, Option.bind_some, node?_put_self below]

/-- What a call has made of an empty file is found. -/
theorem find?_of_writeBy {call : Edit Bytes Unit}
    (ran : writeBy path call disk = .ok () changed) :
    ∃ bytes, call [] = .ok () bytes ∧ changed.find? path = some (.file bytes) := by
  simp only [writeBy, Edit.bind_eq_ok_iff, Edit.ask_eq_ok_iff, Edit.answer_eq_ok_iff] at ran
  obtain ⟨_, _, wrote, ⟨bytes, finished⟩, rfl⟩ := ran
  rw [Edit.after, finished] at wrote
  exact ⟨bytes, finished, find?_of_write wrote⟩

end SecureBoot.Files.Disk
