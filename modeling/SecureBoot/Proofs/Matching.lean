import Mathlib.Data.List.Forall2
import Mathlib.Data.List.Nodup
import SecureBoot.Archive.Manifest
import SecureBoot.Proofs.Call
import SecureBoot.Proofs.Text

/-!
What a manifest states and which files it is accepted for. Every line that is not blank states a
name and a digest, and lines and files have to match one to one; in which order they come does not
matter.
-/

namespace SecureBoot.Manifest

variable {name : List Char} {line : Line} {lines others known : List Line}
  {file : String × Bytes} {files rest : List (String × Bytes)} {text : List Char}
  {texts : List (List Char)}

/-- Whether there is anything but white space in a line. -/
def isFilled (text : List Char) : Bool :=
  text.any fun c => !Text.isBlank c

/-- A line with two consecutive spaces states the digest before the first of them and the name
behind, both without the white space at their ends. -/
def States (text : List Char) (line : Line) : Prop :=
  ∃ before after, Text.Divides text before after ∧ line = ⟨Text.trim after, Text.trim before⟩

/-- Lines and files match: no name is listed twice or given to two files, the names listed are those
of the files, and every file has the digest in its line, in digits of either case. -/
structure Matches (lines : List Line) (files : List (String × Bytes)) : Prop where
  once : (lines.map Line.name).Nodup
  apart : (files.map Prod.fst).Nodup
  same : ∀ name, name ∈ lines.map Line.name ↔ name ∈ files.map fun file => file.1.toList
  digests : ∀ line ∈ lines, ∀ file ∈ files, line.name = file.1.toList →
    line.digest.map Char.toLower = (Text.Hex.encodeChars (Bytes.sha256 file.2)).map Char.toLower

theorem exists_states_iff : (∃ line, States text line) ↔ [' ', ' '] <:+: text := by
  rw [← Text.exists_divides_iff]
  constructor
  · rintro ⟨line, before, after, divided, -⟩
    exact ⟨before, after, divided⟩
  · rintro ⟨before, after, divided⟩
    exact ⟨_, before, after, divided, rfl⟩

section Lines

theorem isEmpty_trim (text : List Char) : (Text.trim text).isEmpty = !isFilled text := by
  rw [Bool.eq_iff_iff, List.isEmpty_iff, Text.trim_eq_nil_iff, isFilled, List.not_any_eq_all_not,
    List.all_eq_true]
  simp only [Bool.not_not]

/-- A line is read as what it states, or not at all. -/
theorem parseLines_cons_eq_ok_iff (filled : isFilled text = true) :
    parseLines known (text :: texts) = .ok lines ↔
      ∃ line, States text line ∧ line.name ∉ known.map Line.name ∧
        parseLines (line :: known) texts = .ok lines := by
  rw [parseLines, if_neg (by rw [isEmpty_trim, filled]; decide)]
  cases divided : Text.splitAtTwoSpaces text with
  | none =>
    refine iff_of_false nofun ?_
    rintro ⟨line, ⟨before, after, found, -⟩, -⟩
    rw [Text.splitAtTwoSpaces_eq_some_iff.mpr found] at divided
    cases divided
  | some pair =>
    obtain ⟨before, after⟩ := pair
    simp only [bind_eq_ok_iff, exists_unit_iff, require_eq_ok_iff]
    constructor
    · rintro ⟨fresh, ran⟩
      exact ⟨_, ⟨before, after, Text.splitAtTwoSpaces_eq_some_iff.mp divided, rfl⟩, fresh, ran⟩
    · rintro ⟨line, ⟨digest, name, found, rfl⟩, fresh, ran⟩
      rw [Text.splitAtTwoSpaces_eq_some_iff.mpr found] at divided
      obtain ⟨rfl, rfl⟩ := Prod.mk.inj (Option.some.inj divided)
      exact ⟨fresh, ran⟩

/-- The lines that are read are those stated, and no name is listed twice. -/
theorem parseLines_eq_ok_iff (distinct : (known.map Line.name).Nodup) :
    parseLines known texts = .ok lines ↔
      (lines.map Line.name).Nodup ∧
        ∃ listed, List.Forall₂ States (texts.filter isFilled) listed ∧
          lines = known.reverse ++ listed := by
  induction texts generalizing known with
  | nil =>
    rw [parseLines, Except.ok.injEq, List.filter_nil]
    constructor
    · rintro rfl
      rw [List.map_reverse, List.nodup_reverse]
      exact ⟨distinct, [], .nil, (List.append_nil _).symm⟩
    · rintro ⟨-, listed, none, rfl⟩
      obtain rfl := List.forall₂_nil_left_iff.mp none
      exact (List.append_nil _).symm
  | cons text texts ih =>
    cases filled : isFilled text with
    | false =>
      rw [parseLines, if_pos (by rw [isEmpty_trim, filled]; rfl), ih distinct,
        List.filter_cons_of_neg (by rw [filled]; decide)]
    | true =>
      rw [parseLines_cons_eq_ok_iff filled, List.filter_cons_of_pos filled]
      constructor
      · rintro ⟨line, states, fresh, ran⟩
        have distinctToo : ((line :: known).map Line.name).Nodup :=
          List.nodup_cons.mpr ⟨fresh, distinct⟩
        obtain ⟨once, listed, others, rfl⟩ := (ih distinctToo).mp ran
        refine ⟨once, line :: listed, .cons states others, ?_⟩
        rw [List.reverse_cons, List.append_assoc, List.singleton_append]
      · rintro ⟨once, listed, stated, rfl⟩
        obtain ⟨line, others, states, more, rfl⟩ := List.forall₂_cons_left_iff.mp stated
        have fresh : line.name ∉ known.map Line.name := by
          rw [List.map_append, List.map_reverse] at once
          intro there
          exact List.disjoint_of_nodup_append once (List.mem_reverse.mpr there) List.mem_cons_self
        have distinctToo : ((line :: known).map Line.name).Nodup :=
          List.nodup_cons.mpr ⟨fresh, distinct⟩
        refine ⟨line, states, fresh, (ih distinctToo).mpr ⟨once, others, more, ?_⟩⟩
        rw [List.reverse_cons, List.append_assoc, List.singleton_append]

theorem parse_eq_ok_iff :
    parse text = .ok lines ↔
      (lines.map Line.name).Nodup ∧
        List.Forall₂ States ((Text.lines text).filter isFilled) lines := by
  have distinct : (([] : List Line).map Line.name).Nodup := List.nodup_nil
  rw [parse, parseLines_eq_ok_iff distinct]
  constructor
  · rintro ⟨once, listed, stated, rfl⟩
    exact ⟨once, stated⟩
  · rintro ⟨once, stated⟩
    exact ⟨once, lines, stated, rfl⟩

end Lines

section Files

theorem takeLine_eq_none_iff : takeLine name lines = none ↔ name ∉ lines.map Line.name := by
  induction lines with
  | nil => exact iff_of_true rfl List.not_mem_nil
  | cons first rest ih =>
    rw [takeLine, List.map_cons, List.mem_cons, not_or]
    by_cases here : first.name = name
    · rw [if_pos here]
      exact iff_of_false nofun fun apart => apart.1 here.symm
    · rw [if_neg here, Option.map_eq_none_iff, ih]
      exact ⟨fun missing => ⟨fun same => here same.symm, missing⟩, And.right⟩

/-- Which line is taken out, and that the others are left. -/
theorem perm_of_takeLine (taken : takeLine name lines = some (line, others)) :
    line.name = name ∧ lines.Perm (line :: others) := by
  induction lines generalizing others with
  | nil => cases taken
  | cons first rest ih =>
    rw [takeLine] at taken
    by_cases here : first.name = name
    · rw [if_pos here] at taken
      obtain ⟨rfl, rfl⟩ := Prod.mk.inj (Option.some.inj taken)
      exact ⟨here, .refl _⟩
    · rw [if_neg here] at taken
      obtain ⟨⟨found, left⟩, there, same⟩ := Option.map_eq_some_iff.mp taken
      obtain ⟨rfl, rfl⟩ := Prod.mk.inj same
      obtain ⟨named, moved⟩ := ih there
      exact ⟨named, (moved.cons first).trans (.swap _ _ _)⟩

/-- In which order the lines stand does not matter. -/
theorem Matches.perm (held : Matches lines files) (moved : lines.Perm others) :
    Matches others files where
  once := (moved.map Line.name).nodup_iff.mp held.once
  apart := held.apart
  same := fun name => (moved.map Line.name).mem_iff.symm.trans (held.same name)
  digests := fun line member => held.digests line (moved.mem_iff.mpr member)

theorem matches_nil_iff : Matches lines [] ↔ lines = [] := by
  constructor
  · intro held
    refine List.eq_nil_iff_forall_not_mem.mpr fun line member => ?_
    exact List.not_mem_nil ((held.same line.name).mp (List.mem_map_of_mem member))
  · rintro rfl
    exact ⟨List.nodup_nil, List.nodup_nil, fun _ => Iff.rfl, nofun⟩

/-- With a file and its line put aside, the others still match. -/
theorem Matches.of_cons (held : Matches (line :: others) (file :: rest))
    (named : line.name = file.1.toList) : Matches others rest := by
  obtain ⟨fresh, once⟩ := List.nodup_cons.mp held.once
  obtain ⟨freshFile, apart⟩ := List.nodup_cons.mp held.apart
  refine ⟨once, apart, fun name => ⟨fun member => ?_, fun member => ?_⟩, ?_⟩
  · rcases List.mem_cons.mp ((held.same name).mp (List.mem_cons_of_mem _ member)) with
      (here : name = file.1.toList) | later
    · rw [here, ← named] at member
      exact absurd member fresh
    · exact later
  · rcases List.mem_cons.mp ((held.same name).mpr (List.mem_cons_of_mem _ member)) with here | later
    · obtain ⟨other, inside, same⟩ := List.mem_map.mp member
      rw [here, named, String.toList_inj] at same
      exact absurd (List.mem_map.mpr ⟨other, inside, same⟩) freshFile
    · exact later
  · intro other inside another behind
    exact held.digests other (List.mem_cons_of_mem _ inside) another (List.mem_cons_of_mem _ behind)

/-- A file and its line match together with others that do. -/
theorem Matches.cons (held : Matches others rest) (fresh : line.name ∉ others.map Line.name)
    (named : line.name = file.1.toList)
    (digest : line.digest.map Char.toLower = Text.Hex.encodeChars (Bytes.sha256 file.2)) :
    Matches (line :: others) (file :: rest) := by
  have unlisted {other : String × Bytes} (inside : other ∈ rest) : line.name ≠ other.1.toList := by
    intro same
    exact fresh (same ▸ (held.same _).mpr (List.mem_map.mpr ⟨other, inside, rfl⟩))
  refine ⟨List.nodup_cons.mpr ⟨fresh, held.once⟩, List.nodup_cons.mpr ⟨fun member => ?_, held.apart⟩,
    fun name => ?_, ?_⟩
  · obtain ⟨other, inside, same⟩ := List.mem_map.mp member
    exact unlisted inside (by rw [named, same])
  · rw [List.map_cons, List.map_cons, List.mem_cons, List.mem_cons, named, held.same]
  · intro other member another inside same
    rcases List.mem_cons.mp member with rfl | later
    · rcases List.mem_cons.mp inside with rfl | behind
      · rw [digest, Text.toLower_encodeChars]
      · exact absurd same (unlisted behind)
    · rcases List.mem_cons.mp inside with rfl | behind
      · rw [← named] at same
        exact absurd (List.mem_map.mpr ⟨other, later, same⟩) fresh
      · exact held.digests other later another behind same

theorem matches_cons_iff (fresh : line.name ∉ others.map Line.name)
    (named : line.name = file.1.toList) :
    Matches (line :: others) (file :: rest) ↔
      line.digest.map Char.toLower = Text.Hex.encodeChars (Bytes.sha256 file.2) ∧
        Matches others rest := by
  constructor
  · intro held
    have digest := held.digests line List.mem_cons_self file List.mem_cons_self named
    rw [Text.toLower_encodeChars] at digest
    exact ⟨digest, held.of_cons named⟩
  · rintro ⟨digest, held⟩
    exact held.cons fresh named digest

/-- Files are accepted just if they match the lines. -/
theorem checkFiles_eq_ok_iff (once : (lines.map Line.name).Nodup) :
    checkFiles lines files = .ok () ↔ Matches lines files := by
  induction files generalizing lines with
  | nil =>
    rw [matches_nil_iff]
    cases lines with
    | nil => exact iff_of_true rfl rfl
    | cons line lines => exact iff_of_false nofun (List.cons_ne_nil _ _)
  | cons file rest ih =>
    rw [checkFiles.eq_def]
    cases taken : takeLine file.1.toList lines with
    | none =>
      simp only [taken]
      refine iff_of_false nofun fun held => takeLine_eq_none_iff.mp taken ?_
      exact (held.same _).mpr List.mem_cons_self
    | some pair =>
      obtain ⟨line, others⟩ := pair
      obtain ⟨named, moved⟩ := perm_of_takeLine taken
      obtain ⟨fresh, onceToo⟩ := List.nodup_cons.mp ((moved.map Line.name).nodup_iff.mp once)
      have either : Matches lines (file :: rest) ↔ Matches (line :: others) (file :: rest) :=
        ⟨fun held => held.perm moved, fun held => held.perm moved.symm⟩
      simp only [taken, bind_eq_ok_iff, exists_unit_iff, require_eq_ok_iff]
      rw [either, matches_cons_iff fresh named, ih onceToo]

end Files

/-- A manifest is accepted for just the files that match what its lines state. -/
theorem verify_eq_ok_iff (text : List Char) (files : List (String × Bytes)) :
    verify text files = .ok () ↔
      (∀ line ∈ (Text.lines text).filter isFilled, [' ', ' '] <:+: line) ∧
        ∃ listed, List.Forall₂ States ((Text.lines text).filter isFilled) listed ∧
          Matches listed files := by
  rw [verify, bind_eq_ok_iff]
  constructor
  · rintro ⟨lines, parsed, checked⟩
    obtain ⟨once, stated⟩ := parse_eq_ok_iff.mp parsed
    have spaced : List.Forall₂ (fun text line => [' ', ' '] <:+: text ∧ States text line)
        ((Text.lines text).filter isFilled) lines :=
      stated.imp fun text line states => ⟨exists_states_iff.mp ⟨line, states⟩, states⟩
    exact ⟨((List.forall₂_and_left _ _).mp spaced).1, lines, stated,
      (checkFiles_eq_ok_iff once).mp checked⟩
  · rintro ⟨-, listed, stated, held⟩
    exact ⟨listed, parse_eq_ok_iff.mpr ⟨held.once, stated⟩, (checkFiles_eq_ok_iff held.once).mpr held⟩

end SecureBoot.Manifest
