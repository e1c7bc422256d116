import SecureBoot.Proofs.Matching

/-!
Manifests that are written and read again. A manifest is written for any names, but only a name in one
line and without white space at its ends is listed as it is; for files with such names, no two of
which are the same, and only for those, the manifest written for them is accepted.
-/

namespace SecureBoot.Manifest

variable {name : String} {file : String × Bytes} {files : List (String × Bytes)} {line : Line}
  {text : List Char}

/-- A name that a manifest lists as it is. -/
structure Lists (name : String) : Prop where
  oneLine : '\n' ∉ name.toList
  trimmed : Text.trim name.toList = name.toList

/-- The line of a file as it is read. -/
def lineOf (file : String × Bytes) : Line :=
  ⟨file.1.toList, Text.Hex.encodeChars (Bytes.sha256 file.2)⟩

/-- The line of a file as it is written, without its newline. -/
def bodyOf (file : String × Bytes) : List Char :=
  Text.Hex.encodeChars (Bytes.sha256 file.2) ++ ' ' :: ' ' :: file.1.toList

/-- The manifest of files. -/
def written (files : List (String × Bytes)) : List Char :=
  files.flatMap fun file => bodyOf file ++ ['\n']

theorem toList_renderLine (name : String) (bytes : Bytes) :
    (renderLine name (Text.Hex.encode (Bytes.sha256 bytes))).toList =
      bodyOf (name, bytes) ++ ['\n'] := by
  rw [renderLine, String.toList_append, String.toList_append, String.toList_append, Text.Hex.encode,
    String.toList_ofList, bodyOf, List.append_assoc (Text.Hex.encodeChars _)]
  rfl

section Writing

theorem newline_notMem_bodyOf (listed : Lists file.1) : '\n' ∉ bodyOf file := by
  intro member
  rcases List.mem_append.mp member with digits | behind
  · exact Text.newline_notMem_encodeChars _ digits
  · have inside : '\n' ∈ file.1.toList := by simpa using behind
    exact listed.oneLine inside

/-- A line ends with its name, or with a space if that is empty. -/
theorem getLast?_bodyOf (listed : Lists file.1) : (bodyOf file).getLast? ≠ some '\x0d' := by
  intro returns
  rw [bodyOf, List.getLast?_append_of_ne_nil _ (List.cons_ne_nil _ _)] at returns
  cases last : file.1.toList.getLast? with
  | none =>
    rw [List.getLast?_eq_none_iff.mp last] at returns
    cases returns
  | some c =>
    rw [List.getLast?_cons, List.getLast?_cons, last] at returns
    obtain rfl : c = '\x0d' := by simpa using returns
    rw [← listed.trimmed] at last
    exact nomatch Text.getLast?_trim last

/-- The lines of a manifest are those that were written. -/
theorem lines_written (listed : ∀ file ∈ files, Lists file.1) :
    Text.lines (written files) = files.map bodyOf := by
  induction files with
  | nil => rfl
  | cons file files ih =>
    obtain ⟨first, others⟩ := List.forall_mem_cons.mp listed
    have whole : (([] : List Char).reverse ++ bodyOf file).getLast? ≠ some '\x0d' :=
      getLast?_bodyOf first
    rw [written, List.flatMap_cons, List.append_assoc, Text.lines, List.singleton_append,
      Text.linesAfter_line (newline_notMem_bodyOf first) whole, List.map_cons]
    exact congrArg (bodyOf file :: ·) (ih others)

theorem isFilled_bodyOf (file : String × Bytes) : isFilled (bodyOf file) = true := by
  obtain ⟨c, member⟩ : ∃ c, c ∈ Text.Hex.encodeChars (Bytes.sha256 file.2) := by
    refine List.exists_mem_of_length_pos ?_
    rw [Text.Hex.length_encodeChars, Bytes.length_sha256]
    decide
  refine List.any_eq_true.mpr ⟨c, List.mem_append_left _ member, ?_⟩
  rw [Text.isBlank_of_mem_encodeChars member]
  rfl

/-- The line that was written for a file states its digest and its name. -/
theorem states_bodyOf (listed : Lists file.1) : States (bodyOf file) (lineOf file) := by
  refine ⟨_, _, Text.divides_append (Text.space_notMem_encodeChars _), ?_⟩
  rw [listed.trimmed, Text.trim_of_solid fun _ => Text.isBlank_of_mem_encodeChars]
  rfl

/-- Files with names apart are listed under names apart. -/
theorem nodup_lineOf (distinct : (files.map Prod.fst).Nodup) :
    ((files.map lineOf).map Line.name).Nodup := by
  have spelled : ((files.map Prod.fst).map String.toList).Nodup :=
    List.Pairwise.map _ (fun _ _ differ same => differ (String.toList_inj.mp same)) distinct
  rw [List.map_map] at spelled ⊢
  exact spelled

/-- A manifest that was written is read as the lines of its files. -/
theorem parse_written (distinct : (files.map Prod.fst).Nodup)
    (listed : ∀ file ∈ files, Lists file.1) : parse (written files) = .ok (files.map lineOf) := by
  have filled : ∀ text ∈ files.map bodyOf, isFilled text = true := by
    intro text member
    obtain ⟨file, -, rfl⟩ := List.mem_map.mp member
    exact isFilled_bodyOf file
  refine parse_eq_ok_iff.mpr ⟨nodup_lineOf distinct, ?_⟩
  rw [lines_written listed, List.filter_eq_self.mpr filled, List.forall₂_map_left_iff,
    List.forall₂_map_right_iff, List.forall₂_same]
  exact fun file member => states_bodyOf (listed file member)

/-- Files match their own lines. -/
theorem matches_lineOf (distinct : (files.map Prod.fst).Nodup) :
    Matches (files.map lineOf) files := by
  induction files with
  | nil => exact matches_nil_iff.mpr rfl
  | cons file files ih =>
    have fresh := (List.nodup_cons.mp (nodup_lineOf distinct)).1
    exact (ih (List.nodup_cons.mp distinct).2).cons fresh rfl (Text.toLower_encodeChars _)

end Writing

section Reading

/-- The name that a line states has no white space at its ends and no newline. -/
theorem lists_of_states (plain : '\n' ∉ text) (states : States text line) :
    Text.trim line.name = line.name ∧ '\n' ∉ line.name := by
  obtain ⟨before, after, divided, rfl⟩ := states
  refine ⟨Text.trim_trim after, fun inside => plain ?_⟩
  have behind := Text.mem_of_mem_trim inside
  rw [divided.split]
  exact List.mem_append_right _ (List.mem_cons_of_mem _ (List.mem_cons_of_mem _ behind))

/-- Files that a manifest was found to list have names that can be listed. -/
theorem lists_of_verify (ran : verify text files = .ok ()) : ∀ file ∈ files, Lists file.1 := by
  intro file member
  obtain ⟨lines, parsed, checked⟩ := bind_eq_ok_iff.mp ran
  obtain ⟨once, stated⟩ := parse_eq_ok_iff.mp parsed
  have plain : ∀ line ∈ (Text.lines text).filter isFilled, '\n' ∉ line :=
    fun _ inside => Text.newline_notMem_lines (List.mem_of_mem_filter inside)
  obtain ⟨line, inside, named⟩ :=
    List.mem_map.mp ((((checkFiles_eq_ok_iff once).mp checked).same _).mpr
      (List.mem_map_of_mem member))
  obtain ⟨text, there, states⟩ := exists_of_mem_right stated inside
  obtain ⟨trimmed, oneLine⟩ := lists_of_states (plain text there) states
  rw [named] at trimmed oneLine
  exact ⟨oneLine, trimmed⟩

end Reading

/-- The manifest that was written for files is accepted just if their names can be listed. -/
theorem verify_written_iff (distinct : (files.map Prod.fst).Nodup) :
    verify (written files) files = .ok () ↔ ∀ file ∈ files, Lists file.1 := by
  refine ⟨lists_of_verify, fun listed => ?_⟩
  rw [verify, bind_of_ok (parse_written distinct listed), checkFiles_eq_ok_iff (nodup_lineOf distinct)]
  exact matches_lineOf distinct

end SecureBoot.Manifest
