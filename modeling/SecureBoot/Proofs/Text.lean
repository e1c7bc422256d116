import Mathlib.Data.List.TakeWhile
import SecureBoot.Proofs.Call
import SecureBoot.Text.Blank
import SecureBoot.Text.Hex
import SecureBoot.Text.Utf8

/-!
Texts that are written and read again: the bytes of a text are read as that text, and of a text made
of lines every line is found again. Trimming leaves a text alone just if it has no white space at its
ends, as digits never have.
-/

namespace SecureBoot.Text

namespace Begun

variable {byte code low high : Nat} {later : List (Nat × Nat)}

theorem next_two (begins : 0xC2 ≤ byte ∧ byte ≤ 0xDF) :
    none.next byte = ([], ⟨byte - 0xC0, [(0x80, 0xBF)]⟩) := by
  have far : ¬ byte < 0x80 := by omega
  rw [show none.next byte = first byte from rfl, first, if_neg far, if_pos begins]

theorem next_three (begins : 0xE0 ≤ byte ∧ byte ≤ 0xEF) :
    none.next byte = ([], ⟨byte - 0xE0, [(if byte = 0xE0 then 0xA0 else 0x80,
      if byte = 0xED then 0x9F else 0xBF), (0x80, 0xBF)]⟩) := by
  have far : ¬ byte < 0x80 := by omega
  have longer : ¬ (0xC2 ≤ byte ∧ byte ≤ 0xDF) := by omega
  rw [show none.next byte = first byte from rfl, first, if_neg far, if_neg longer]
  by_cases low : byte = 0xE0
  · subst low
    rfl
  · by_cases surrogate : byte = 0xED
    · subst surrogate
      rfl
    · rw [if_neg low, if_neg surrogate, if_pos (by omega), if_neg low, if_neg surrogate]

theorem next_four (begins : 0xF0 ≤ byte ∧ byte ≤ 0xF4) :
    none.next byte = ([], ⟨byte - 0xF0, [(if byte = 0xF0 then 0x90 else 0x80,
      if byte = 0xF4 then 0x8F else 0xBF), (0x80, 0xBF), (0x80, 0xBF)]⟩) := by
  have far : ¬ byte < 0x80 := by omega
  have two : ¬ (0xC2 ≤ byte ∧ byte ≤ 0xDF) := by omega
  have three : ¬ (0xE1 ≤ byte ∧ byte ≤ 0xEF) := by omega
  have low : byte ≠ 0xE0 := by omega
  have surrogate : byte ≠ 0xED := by omega
  rw [show none.next byte = first byte from rfl, first, if_neg far, if_neg two, if_neg low,
    if_neg surrogate, if_neg three]
  by_cases least : byte = 0xF0
  · subst least
    rfl
  · by_cases most : byte = 0xF4
    · subst most
      rfl
    · rw [if_neg least, if_pos (by omega), if_neg least, if_neg most]

theorem next_more (within : low ≤ byte ∧ byte ≤ high) (more : later ≠ []) :
    next ⟨code, (low, high) :: later⟩ byte = ([], ⟨64 * code + byte % 64, later⟩) := by
  have owes : later.isEmpty = false := by simpa using more
  simp only [next, if_pos within, owes]
  rfl

theorem next_last (within : low ≤ byte ∧ byte ≤ high) :
    next ⟨code, [(low, high)]⟩ byte = ([Char.ofNat (64 * code + byte % 64)], none) := by
  simp only [next, if_pos within]
  rfl

theorem charsAfter_cons {begun after : Begun} {shown : List Char} {rest : Bytes}
    (small : byte < 256) (goes : begun.next byte = (shown, after)) :
    begun.charsAfter (UInt8.ofNat byte :: rest) = shown ++ after.charsAfter rest := by
  rw [charsAfter, UInt8.toNat_ofNat_of_lt' small, goes]

/-- The bytes of a character are read as that character. -/
theorem charsAfter_utf8EncodeChar (c : Char) (rest : Bytes) :
    none.charsAfter (String.utf8EncodeChar c ++ rest) = c :: none.charsAfter rest := by
  have scalar : c.toNat < 0xD800 ∨ 0xDFFF < c.toNat ∧ c.toNat < 0x110000 := c.valid
  have back {number : Nat} (same : number = c.toNat) : [Char.ofNat number] = [c] := by
    rw [same, Char.ofNat_toNat]
  unfold String.utf8EncodeChar
  simp only [show c.val.toNat = c.toNat from rfl]
  generalize c.toNat = code at *
  split
  · rename_i small
    have lead : none.next code = ([Char.ofNat code], none) := if_pos (by omega)
    rw [List.cons_append, charsAfter_cons (by omega) lead, back rfl]
    rfl
  · split
    · have lead : none.next (code / 64 % 32 + 192) = _ := next_two (by omega)
      rw [List.cons_append, charsAfter_cons (by omega) lead, List.cons_append,
        charsAfter_cons (by omega) (next_last (by omega)), back (by omega)]
      rfl
    · split
      · have lead : none.next (code / 4096 % 16 + 224) = _ := next_three (by omega)
        have second : (if code / 4096 % 16 + 224 = 0xE0 then 0xA0 else 0x80) ≤ code / 64 % 64 + 128 ∧
            code / 64 % 64 + 128 ≤ if code / 4096 % 16 + 224 = 0xED then 0x9F else 0xBF := by
          split <;> split <;> omega
        rw [List.cons_append, charsAfter_cons (by omega) lead, List.cons_append,
          charsAfter_cons (by omega) (next_more second (List.cons_ne_nil _ _)), List.cons_append,
          charsAfter_cons (by omega) (next_last (by omega)), back (by omega)]
        rfl
      · have lead : none.next (code / 262144 % 8 + 240) = _ := next_four (by omega)
        have second : (if code / 262144 % 8 + 240 = 0xF0 then 0x90 else 0x80) ≤
              code / 4096 % 64 + 128 ∧
            code / 4096 % 64 + 128 ≤ if code / 262144 % 8 + 240 = 0xF4 then 0x8F else 0xBF := by
          split <;> split <;> omega
        rw [List.cons_append, charsAfter_cons (by omega) lead, List.cons_append,
          charsAfter_cons (by omega) (next_more second (List.cons_ne_nil _ _)), List.cons_append,
          charsAfter_cons (by omega) (next_more (by omega) (List.cons_ne_nil _ _)), List.cons_append,
          charsAfter_cons (by omega) (next_last (by omega)), back (by omega)]
        rfl

end Begun

/-- The bytes of a text are read as that text. -/
theorem chars_utf8 (text : List Char) : chars (utf8 text) = text := by
  induction text with
  | nil => rfl
  | cons c rest ih =>
    rw [chars, utf8, List.flatMap_cons, Begun.charsAfter_utf8EncodeChar]
    exact congrArg (c :: ·) ih

/-- So texts with the same bytes are the same. -/
theorem utf8_injective {first second : List Char} (same : utf8 first = utf8 second) :
    first = second := by
  rw [← chars_utf8 first, same, chars_utf8]

section Blanks

variable {c : Char} {text front back : List Char}

/-- A text that was trimmed does not end with white space. -/
theorem getLast?_trim (found : (trim text).getLast? = some c) : isBlank c = false := by
  rw [trim, List.getLast?_reverse] at found
  have first := List.head?_dropWhile_not isBlank (text.dropWhile isBlank).reverse
  rw [found] at first
  exact first

/-- Nor does it begin with it. -/
theorem head?_trim (found : (trim text).head? = some c) : isBlank c = false := by
  obtain ⟨more, split⟩ : trim text <+: text.dropWhile isBlank := by
    rw [trim, ← List.reverse_suffix, List.reverse_reverse]
    exact List.dropWhile_suffix isBlank
  have first := List.head?_dropWhile_not isBlank text
  rw [← split, List.head?_append, found, Option.some_or] at first
  exact first

theorem dropWhile_blank (solid : ∀ c, text.head? = some c → isBlank c = false) :
    text.dropWhile isBlank = text := by
  cases text with
  | nil => rfl
  | cons first rest =>
    rw [List.dropWhile_cons, solid first rfl]
    rfl

/-- A text with no white space at its ends is left alone. -/
theorem trim_of_ends (front : ∀ c, text.head? = some c → isBlank c = false)
    (back : ∀ c, text.getLast? = some c → isBlank c = false) : trim text = text := by
  rw [trim, dropWhile_blank front, dropWhile_blank, List.reverse_reverse]
  intro c found
  rw [List.head?_reverse] at found
  exact back c found

theorem trim_trim (text : List Char) : trim (trim text) = trim text :=
  trim_of_ends (fun _ => head?_trim) fun _ => getLast?_trim

theorem trim_of_solid (solid : ∀ c ∈ text, isBlank c = false) : trim text = text :=
  trim_of_ends (fun c found => solid c (List.mem_of_head? found))
    fun c found => solid c (List.mem_of_getLast? found)

theorem mem_of_mem_trim (member : c ∈ trim text) : c ∈ text := by
  rw [trim, List.mem_reverse] at member
  have kept := List.mem_reverse.mp ((List.dropWhile_suffix isBlank).subset member)
  exact (List.dropWhile_suffix isBlank).subset kept

/-- A text is trimmed away just if there is only white space in it. -/
theorem trim_eq_nil_iff : trim text = [] ↔ ∀ c ∈ text, isBlank c = true := by
  constructor
  · intro gone
    rw [trim, List.reverse_eq_nil_iff] at gone
    have rest : ∀ c ∈ (text.dropWhile isBlank).reverse, isBlank c = true :=
      List.dropWhile_eq_nil_iff.mp gone
    refine List.dropWhile_eq_nil_iff.mp ?_
    cases left : text.dropWhile isBlank with
    | nil => rfl
    | cons first others =>
      have keeps := List.head?_dropWhile_not isBlank text
      rw [left] at rest keeps
      have blank := rest first (List.mem_reverse.mpr List.mem_cons_self)
      rw [show isBlank first = false from keeps] at blank
      cases blank
  · intro blank
    rw [trim, List.dropWhile_eq_nil_iff.mpr blank]
    rfl

end Blanks

section Lines

variable {start text line rest digest name : List Char}

/-- What a newline ends, read backwards: one carriage return before it is no part of it. -/
def withoutReturn : List Char → List Char
  | '\x0d' :: before => before
  | start => start

theorem withoutReturn_sublist (start : List Char) : (withoutReturn start).Sublist start := by
  rw [withoutReturn.eq_def]
  split
  · exact List.sublist_cons_self _ _
  · exact List.Sublist.refl _

theorem withoutReturn_of_head? (plain : start.head? ≠ some '\x0d') : withoutReturn start = start := by
  rw [withoutReturn.eq_def]
  split
  · exact absurd rfl plain
  · rfl

theorem linesAfter_newline :
    linesAfter start ('\n' :: rest) = (withoutReturn start).reverse :: linesAfter [] rest := by
  conv_lhs => unfold linesAfter
  rw [if_pos rfl]
  dsimp only
  split
  · rfl
  · rename_i other
    rw [withoutReturn_of_head?]
    intro returns
    obtain ⟨before, same⟩ := List.head?_eq_some_iff.mp returns
    exact other before same

theorem linesAfter_cons {c : Char} (other : c ≠ '\n') :
    linesAfter start (c :: rest) = linesAfter (c :: start) rest := by
  conv_lhs => unfold linesAfter
  rw [if_neg other]

/-- No line has a newline in it. -/
theorem newline_notMem_linesAfter (plain : '\n' ∉ start) :
    ∀ line ∈ linesAfter start text, '\n' ∉ line := by
  induction text generalizing start with
  | nil =>
    intro line member
    unfold linesAfter at member
    split at member
    · cases member
    · rw [List.mem_singleton.mp member, List.mem_reverse]
      exact plain
  | cons c rest ih =>
    intro line member
    by_cases ends : c = '\n'
    · rw [ends, linesAfter_newline] at member
      rcases List.mem_cons.mp member with rfl | later
      · rw [List.mem_reverse]
        exact fun inside => plain ((withoutReturn_sublist start).subset inside)
      · exact ih List.not_mem_nil line later
    · rw [linesAfter_cons ends] at member
      refine ih ?_ line member
      rw [List.mem_cons, not_or]
      exact ⟨fun same => ends same.symm, plain⟩

theorem newline_notMem_lines (member : line ∈ lines text) : '\n' ∉ line :=
  newline_notMem_linesAfter List.not_mem_nil line member

/-- A line that does not end with a carriage return is read up to its newline. -/
theorem linesAfter_line (plain : '\n' ∉ line)
    (whole : (start.reverse ++ line).getLast? ≠ some '\x0d') :
    linesAfter start (line ++ '\n' :: rest) = (start.reverse ++ line) :: lines rest := by
  induction line generalizing start with
  | nil =>
    rw [List.append_nil, List.getLast?_reverse] at whole
    rw [List.nil_append, linesAfter_newline, withoutReturn_of_head? whole, List.append_nil]
    rfl
  | cons c line ih =>
    obtain ⟨other, plainToo⟩ := not_or.mp (mt List.mem_cons.mpr plain)
    have moved : (c :: start).reverse ++ line = start.reverse ++ c :: line := by simp
    rw [List.cons_append, linesAfter_cons fun same => other same.symm, ih plainToo (moved ▸ whole),
      moved]

/-- The first two consecutive spaces of a text stand between two parts of it. -/
structure Divides (text before after : List Char) : Prop where
  split : text = before ++ ' ' :: ' ' :: after
  first : ¬ [' ', ' '] <:+: before ++ [' ']

theorem Divides.two_le_length (divided : Divides text digest name) : 2 ≤ text.length := by
  rw [divided.split, List.length_append]
  exact Nat.le_add_left_of_le (Nat.le_add_left 2 name.length)

/-- What begins with two spaces is divided there. -/
theorem divides_spaces_iff : Divides (' ' :: ' ' :: rest) digest name ↔ digest = [] ∧ rest = name := by
  constructor
  · rintro ⟨split, first⟩
    cases digest with
    | nil => simpa using split
    | cons c before =>
      obtain ⟨rfl, same⟩ := List.cons.inj split
      refine absurd (List.IsPrefix.isInfix ?_) first
      rw [List.cons_append, List.prefix_cons_inj]
      cases before with
      | nil => exact List.prefix_rfl
      | cons next before =>
        obtain ⟨rfl, -⟩ := List.cons.inj same
        exact ⟨before ++ [' '], rfl⟩
  · rintro ⟨rfl, rfl⟩
    refine ⟨rfl, fun inside => ?_⟩
    have short : 2 ≤ 1 := inside.length_le
    omega

/-- Any other text is divided where the text behind its first character is. -/
theorem divides_cons_iff {c : Char} (other : ¬ [' ', ' '] <+: c :: text) :
    Divides (c :: text) digest name ↔ ∃ before, Divides text before name ∧ c :: before = digest := by
  constructor
  · rintro ⟨split, first⟩
    cases digest with
    | nil => exact absurd ⟨name, split.symm⟩ other
    | cons begins before =>
      obtain ⟨rfl, same⟩ := List.cons.inj split
      refine ⟨before, ⟨same, fun inside => first ?_⟩, rfl⟩
      exact inside.trans (List.suffix_cons _ _).isInfix
  · rintro ⟨before, ⟨same, first⟩, rfl⟩
    refine ⟨congrArg (c :: ·) same, fun inside => ?_⟩
    rcases List.infix_cons_iff.mp inside with front | behind
    · refine other (front.trans ?_)
      rw [same, List.prefix_cons_inj]
      exact ⟨' ' :: name, by simp⟩
    · exact first behind

/-- A text is divided at its first two consecutive spaces. -/
theorem splitAtTwoSpaces_eq_some_iff :
    splitAtTwoSpaces text = some (digest, name) ↔ Divides text digest name := by
  induction text generalizing digest with
  | nil => exact iff_of_false nofun (fun divided => absurd divided.two_le_length (by decide))
  | cons c text ih =>
    cases text with
    | nil => exact iff_of_false nofun (fun divided => absurd divided.two_le_length (by decide : ¬ 2 ≤ 1))
    | cons next rest =>
      rw [splitAtTwoSpaces]
      by_cases spaces : c = ' ' ∧ next = ' '
      · obtain ⟨rfl, rfl⟩ := spaces
        rw [if_pos ⟨rfl, rfl⟩, divides_spaces_iff, Option.some_inj, Prod.mk.injEq, eq_comm (a := [])]
      · have other : ¬ [' ', ' '] <+: c :: next :: rest := by
          rintro ⟨more, same⟩
          obtain ⟨here, behind⟩ := List.cons.inj same
          exact spaces ⟨here.symm, (List.cons.inj behind).1.symm⟩
        rw [if_neg spaces, divides_cons_iff other, Option.map_eq_some_iff]
        constructor
        · rintro ⟨⟨before, after⟩, found, same⟩
          obtain ⟨rfl, rfl⟩ := Prod.mk.inj same
          exact ⟨before, ih.mp found, rfl⟩
        · rintro ⟨before, divided, rfl⟩
          exact ⟨(before, name), ih.mpr divided, rfl⟩

/-- Two consecutive spaces are all that a text needs to be divided. -/
theorem exists_divides_iff : (∃ before after, Divides text before after) ↔ [' ', ' '] <:+: text := by
  constructor
  · rintro ⟨before, after, divided⟩
    exact ⟨before, after, by rw [divided.split, List.append_assoc]; rfl⟩
  · intro spaces
    induction text with
    | nil => exact absurd spaces.length_le (by decide)
    | cons c text ih =>
      by_cases front : [' ', ' '] <+: c :: text
      · obtain ⟨rest, same⟩ := front
        rw [← same]
        exact ⟨[], rest, divides_spaces_iff.mpr ⟨rfl, rfl⟩⟩
      · obtain ⟨before, after, divided⟩ := ih ((List.infix_cons_iff.mp spaces).resolve_left front)
        exact ⟨c :: before, after, (divides_cons_iff front).mpr ⟨before, divided, rfl⟩⟩

/-- The first two spaces are those behind a text without spaces. -/
theorem divides_append (solid : ' ' ∉ digest) : Divides (digest ++ ' ' :: ' ' :: name) digest name := by
  refine ⟨rfl, fun inside => ?_⟩
  have twice : 2 ≤ (digest ++ [' ']).count ' ' := inside.sublist.count_le ' '
  rw [List.count_append, List.count_eq_zero_of_not_mem solid] at twice
  exact absurd twice (by decide)

end Lines

section Digits

variable {c : Char} {bytes : Bytes}

/-- What is true of every digit is true of all characters of a byte string in digits. -/
theorem forall_mem_encodeChars {good : Char → Prop}
    (each : ∀ number : Fin 16, good (Hex.digit number)) : ∀ c ∈ Hex.encodeChars bytes, good c := by
  intro c member
  obtain ⟨byte, -, inside⟩ := List.mem_flatMap.mp member
  have small := byte.toNat_lt
  simp only [List.mem_cons, List.not_mem_nil, or_false] at inside
  rcases inside with rfl | rfl
  · exact each ⟨byte.toNat / 16, by omega⟩
  · exact each ⟨byte.toNat % 16, by omega⟩

theorem isBlank_of_mem_encodeChars (member : c ∈ Hex.encodeChars bytes) : isBlank c = false := by
  have each : ∀ c ∈ Hex.encodeChars bytes, isBlank c = false :=
    forall_mem_encodeChars (by decide)
  exact each c member

theorem space_notMem_encodeChars (bytes : Bytes) : ' ' ∉ Hex.encodeChars bytes :=
  fun member => nomatch isBlank_of_mem_encodeChars member

theorem newline_notMem_encodeChars (bytes : Bytes) : '\n' ∉ Hex.encodeChars bytes :=
  fun member => nomatch isBlank_of_mem_encodeChars member

/-- The digits are in lower case. -/
theorem toLower_encodeChars (bytes : Bytes) :
    (Hex.encodeChars bytes).map Char.toLower = Hex.encodeChars bytes := by
  have each : ∀ c ∈ Hex.encodeChars bytes, c.toLower = c :=
    forall_mem_encodeChars (by decide)
  exact (List.map_congr_left each).trans (List.map_id' _)

end Digits

end SecureBoot.Text
