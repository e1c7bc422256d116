import SecureBoot.Expression.Parser
import SecureBoot.Fragment
import SecureBoot.Proofs.Call
import SecureBoot.Proofs.Text

/-!
The ways to write an expression, each of which is read as that expression. Every atom may be written
in any of the three forms that its bytes allow, and white space may stand before the members of a
list and before its end. What follows a complete expression is not looked at, except that it ends an
atom written as its bytes.
-/

namespace SecureBoot

namespace Text.Hex

/-- A byte is a digit, in either case. -/
def Stands (digit : Char) (byte : UInt8) : Prop :=
  byte = digit.val.toUInt8 ∨ byte = digit.toUpper.val.toUInt8

variable {byte : UInt8} {bytes digits : Bytes}

theorem digitValue?_of_stands {number : Nat} (small : number < 16)
    (stands : Stands (digit number) byte) : digitValue? byte = some number := by
  have each : ∀ number : Fin 16,
      digitValue? (digit number.val).val.toUInt8 = some number.val ∧
        digitValue? (digit number.val).toUpper.val.toUInt8 = some number.val := by decide
  rcases stands with rfl | rfl
  · exact (each ⟨number, small⟩).1
  · exact (each ⟨number, small⟩).2

/-- Digits are read in either case. -/
theorem decodeFrom_of_stands (stand : List.Forall₂ Stands (encodeChars bytes) digits)
    (position : Nat) : decodeFrom position digits = .ok bytes := by
  induction bytes generalizing digits position with
  | nil =>
    obtain rfl := List.forall₂_nil_left_iff.mp stand
    rfl
  | cons byte rest ih =>
    obtain ⟨high, more, highStands, behind, rfl⟩ := List.forall₂_cons_left_iff.mp stand
    obtain ⟨low, others, lowStands, remaining, rfl⟩ := List.forall₂_cons_left_iff.mp behind
    have small := byte.toNat_lt
    have joined : UInt8.ofNat (16 * (byte.toNat / 16) + byte.toNat % 16) = byte := by
      rw [Nat.div_add_mod, UInt8.ofNat_toNat]
    rw [decodeFrom, digitValue?_of_stands (by omega) highStands]
    dsimp only
    rw [digitValue?_of_stands (by omega) lowStands]
    dsimp only
    rw [ih remaining, joined]

theorem decode_of_stands (stand : List.Forall₂ Stands (encodeChars bytes) digits) :
    decode digits = .ok bytes := by
  have even : ¬ digits.length % 2 = 1 := by
    rw [← stand.length_eq, length_encodeChars]
    omega
  rw [decode, if_neg even, decodeFrom_of_stands stand]

end Text.Hex

namespace Expression

/-- White space, or nothing. -/
def IsGap (gap : Bytes) : Prop :=
  ∀ byte ∈ gap, isSpace byte = true

/-- Decimal digits that state a number. -/
inductive Numeral : Nat → Bytes → Prop
  | first {digit : UInt8} (decimal : isDigit digit = true) : Numeral (digit.toNat - 0x30) [digit]
  | more {number : Nat} {digits : Bytes} {digit : UInt8} (front : Numeral number digits)
      (decimal : isDigit digit = true) :
      Numeral (10 * number + (digit.toNat - 0x30)) (digits ++ [digit])

/-- Without its white space, a text is the hexadecimal digits of bytes. -/
def Spells (bytes text : Bytes) : Prop :=
  List.Forall₂ Text.Hex.Stands (Text.Hex.encodeChars bytes) (text.filter fun byte => !isSpace byte)

/-- Bytes that are an atom as they stand. -/
structure IsBare (bytes : Bytes) : Prop where
  filled : bytes ≠ []
  plain : ∀ byte ∈ bytes, isDelimiter byte = false
  uncounted : ∀ digits more, digits ≠ [] → (∀ digit ∈ digits, isDigit digit = true) →
    bytes ≠ digits ++ colon :: more

/-- The ways to write an atom before the byte that is next, if any is. -/
inductive WritesAtom (bytes : Bytes) : Bytes → Option UInt8 → Prop
  | counted {digits : Bytes} {next : Option UInt8} (length : Numeral bytes.length digits) :
      WritesAtom bytes (digits ++ colon :: bytes) next
  | hexadecimal {text : Bytes} {next : Option UInt8} (digits : Spells bytes text) :
      WritesAtom bytes (numberSign :: (text ++ [numberSign])) next
  | bare {next : Option UInt8} (plain : IsBare bytes)
      (ends : next.all isDelimiter = true) : WritesAtom bytes bytes next

/-- The ways to write the members of a list, up to its closing parenthesis. -/
inductive WritesItems : List Expression → Bytes → Prop
  | done {gap : Bytes} (blank : IsGap gap) : WritesItems [] gap
  | atom {gap bytes text more : Bytes} {items : List Expression} (blank : IsGap gap)
      (first : WritesAtom bytes text (more ++ [rightParenthesis]).head?)
      (others : WritesItems items more) :
      WritesItems (.atom bytes :: items) (gap ++ (text ++ more))
  | list {gap inner more : Bytes} {members items : List Expression} (blank : IsGap gap)
      (first : WritesItems members inner) (others : WritesItems items more) :
      WritesItems (.list members :: items)
        (gap ++ leftParenthesis :: (inner ++ rightParenthesis :: more))

/-- The ways to write an expression before the byte that is next, if any is. -/
inductive Writes : Expression → Bytes → Option UInt8 → Prop
  | atom {bytes text : Bytes} {next : Option UInt8} (written : WritesAtom bytes text next) :
      Writes (.atom bytes) text next
  | list {text : Bytes} {items : List Expression} {next : Option UInt8}
      (written : WritesItems items text) :
      Writes (.list items) (leftParenthesis :: (text ++ [rightParenthesis])) next

variable {byte : UInt8} {bytes gap text digits input rest : Bytes} {items outer : List Expression}
  {opened further : List (List Expression)} {tree : Expression} {number total : Nat}

section Numerals

theorem Numeral.ne_nil (numeral : Numeral number digits) : digits ≠ [] := by
  cases numeral with
  | first decimal => exact List.cons_ne_nil _ _
  | more front decimal => exact List.append_ne_nil_of_right_ne_nil _ (List.cons_ne_nil _ _)

theorem Numeral.isDigit_of_mem (numeral : Numeral number digits) :
    ∀ digit ∈ digits, isDigit digit = true := by
  induction numeral with
  | first decimal => exact List.forall_mem_singleton.mpr decimal
  | more front decimal ih =>
    exact List.forall_mem_append.mpr ⟨ih, List.forall_mem_singleton.mpr decimal⟩

/-- Digits are read as the number they state. -/
theorem decimal_of_numeral (numeral : Numeral number digits) : decimal digits = number := by
  induction numeral with
  | first digit => exact Nat.zero_add _
  | more front digit ih =>
    rw [decimal] at ih ⊢
    rw [List.foldl_append, ih]
    rfl

/-- Every number can be stated. -/
theorem exists_numeral (number : Nat) : ∃ digits, Numeral number digits := by
  have each : ∀ last < 10, isDigit (0x30 + UInt8.ofNat last) = true ∧
      (0x30 + UInt8.ofNat last).toNat - 0x30 = last := by decide
  induction number using Nat.strongRecOn with
  | ind number ih =>
    obtain ⟨decimal, value⟩ := each (number % 10) (by omega)
    by_cases small : number < 10
    · have only := Numeral.first decimal
      rw [value, Nat.mod_eq_of_lt small] at only
      exact ⟨_, only⟩
    · obtain ⟨digits, front⟩ := ih (number / 10) (by omega)
      have whole := front.more decimal
      rw [value, Nat.div_add_mod] at whole
      exact ⟨_, whole⟩

end Numerals

section Tokens

section Stopping

variable {accepts : UInt8 → Bool} {body : Bytes}

/-- What is accepted is taken up to a byte that is not. -/
theorem takeWhile_stop (inside : ∀ byte ∈ body, accepts byte = true)
    (stops : rest.head?.all (fun next => !accepts next) = true) :
    (body ++ rest).takeWhile accepts = body := by
  rw [List.takeWhile_append_of_pos inside]
  cases rest with
  | nil => exact List.append_nil body
  | cons next more =>
    have refused : accepts next = false := by simpa using stops
    rw [List.takeWhile_cons, refused, if_neg Bool.false_ne_true, List.append_nil]

/-- The rest begins with that byte. -/
theorem dropWhile_stop (inside : ∀ byte ∈ body, accepts byte = true)
    (stops : rest.head?.all (fun next => !accepts next) = true) :
    (body ++ rest).dropWhile accepts = rest := by
  rw [List.dropWhile_append_of_pos inside]
  cases rest with
  | nil => rfl
  | cons next more =>
    have refused : accepts next = false := by simpa using stops
    rw [List.dropWhile_cons, refused, if_neg Bool.false_ne_true]

end Stopping

theorem isDelimiter_of_isDigit (decimal : isDigit byte = true) : isDelimiter byte = false := by
  cases delimits : isDelimiter byte with
  | false => rfl
  | true =>
    simp only [isDelimiter, isSpace, Bool.or_eq_true, beq_iff_eq] at delimits
    rcases delimits with ((((((rfl | rfl) | rfl) | rfl) | rfl) | rfl) | rfl) | rfl
    all_goals exact absurd decimal (by decide)

/-- What begins with no delimiter is an atom, counted or bare. -/
theorem nextToken_solid {first : UInt8} (solid : isDelimiter first = false) :
    nextToken total (first :: rest) =
      if beginsCounted (first :: rest) then do
        let (bytes, after) ← countedAtom total (first :: rest)
        return some (.atom bytes, after)
      else
        .ok (some (.atom (first :: rest.takeWhile fun byte => !isDelimiter byte),
          rest.dropWhile fun byte => !isDelimiter byte)) := by
  simp only [isDelimiter, Bool.or_eq_false_iff, beq_eq_false_iff_ne] at solid
  obtain ⟨⟨⟨blank, opens⟩, closes⟩, hexadecimal⟩ := solid
  rw [nextToken, List.dropWhile_cons_of_neg (by rw [blank]; decide), token, if_neg opens,
    if_neg closes, if_neg hexadecimal]

section Counted

/-- Bytes behind their number and a colon are taken as they are. -/
theorem countedAtom_of_numeral (length : Numeral bytes.length digits)
    (addressable : bytes.length < addressLimit) :
    countedAtom total (digits ++ colon :: (bytes ++ rest)) = .ok (bytes, rest) := by
  have digit := length.isDigit_of_mem
  have small : ¬ 0x10000000000000000 ≤ bytes.length := Nat.not_le_of_lt addressable
  have long : bytes.length ≤ (bytes ++ rest).length := by
    rw [List.length_append]
    exact Nat.le_add_right _ _
  rw [countedAtom, takeWhile_stop digit rfl, dropWhile_stop digit rfl, decimal_of_numeral length]
  dsimp only
  rw [if_neg small, List.drop_succ_cons, List.drop_zero, if_pos long, List.take_left, List.drop_left]

theorem beginsCounted_iff :
    beginsCounted input = true ↔ ∃ digits more, digits ≠ [] ∧
      (∀ digit ∈ digits, isDigit digit = true) ∧ input = digits ++ colon :: more := by
  cases input with
  | nil =>
    refine iff_of_false nofun ?_
    rintro ⟨digits, more, -, -, same⟩
    simp at same
  | cons first others =>
    rw [beginsCounted, Bool.and_eq_true, beq_iff_eq]
    constructor
    · rintro ⟨decimal, colonNext⟩
      obtain ⟨more, behind⟩ := List.head?_eq_some_iff.mp colonNext
      refine ⟨(first :: others).takeWhile isDigit, more, ?_, fun _ => List.mem_takeWhile_imp, ?_⟩
      · rw [List.takeWhile_cons_of_pos decimal]
        exact List.cons_ne_nil _ _
      · rw [← behind, List.takeWhile_append_dropWhile]
    · rintro ⟨digits, more, filled, decimal, same⟩
      have begins : isDigit first = true := by
        cases digits with
        | nil => exact absurd rfl filled
        | cons digit digits =>
          obtain ⟨rfl, -⟩ := List.cons.inj same
          exact decimal first List.mem_cons_self
      rw [same, dropWhile_stop decimal rfl]
      exact ⟨begins, rfl⟩

theorem nextToken_counted (length : Numeral bytes.length digits)
    (addressable : bytes.length < addressLimit) :
    nextToken total (digits ++ colon :: (bytes ++ rest)) = .ok (some (.atom bytes, rest)) := by
  have counts : beginsCounted (digits ++ colon :: (bytes ++ rest)) = true :=
    beginsCounted_iff.mpr ⟨_, _, length.ne_nil, length.isDigit_of_mem, rfl⟩
  have reads : countedAtom total (digits ++ colon :: (bytes ++ rest)) = .ok (bytes, rest) :=
    countedAtom_of_numeral length addressable
  cases digits with
  | nil => exact absurd rfl length.ne_nil
  | cons first others =>
    have solid := isDelimiter_of_isDigit (length.isDigit_of_mem first List.mem_cons_self)
    rw [List.cons_append] at counts reads ⊢
    rw [nextToken_solid solid, if_pos counts, bind_of_ok reads]
    rfl

end Counted

section Hexadecimal

theorem numberSign_notMem_of_spells (spells : Spells bytes text) : numberSign ∉ text := by
  have each : ∀ c ∈ Text.Hex.encodeChars bytes, ¬ Text.Hex.Stands c numberSign := by
    refine Text.forall_mem_encodeChars ?_
    unfold Text.Hex.Stands
    decide
  intro member
  have kept : numberSign ∈ text.filter fun byte => !isSpace byte :=
    List.mem_filter.mpr ⟨member, by decide⟩
  obtain ⟨c, inside, stands⟩ := exists_of_mem_right spells kept
  exact each c inside stands

theorem nextToken_hexadecimal (spells : Spells bytes text) :
    nextToken total (numberSign :: (text ++ numberSign :: rest)) = .ok (some (.atom bytes, rest)) := by
  have inside : ∀ byte ∈ text, (byte != numberSign) = true := by
    intro byte member
    rw [bne_iff_ne]
    rintro rfl
    exact numberSign_notMem_of_spells spells member
  have reads : hexAtom total (text ++ numberSign :: rest) = .ok (bytes, rest) := by
    rw [hexAtom, dropWhile_stop inside rfl, takeWhile_stop inside rfl]
    dsimp only
    rw [Text.Hex.decode_of_stands spells]
  rw [nextToken, List.dropWhile_cons_of_neg (by decide), token, if_neg (by decide),
    if_neg (by decide), if_pos rfl, bind_of_ok reads]
  rfl

end Hexadecimal

section Bare

/-- Bytes without delimiters that do not begin with a digit are an atom as they stand. -/
theorem isBare_of_head? (begins : bytes.head?.any (fun first => !isDigit first) = true)
    (plain : ∀ byte ∈ bytes, isDelimiter byte = false) : IsBare bytes := by
  refine ⟨?_, plain, fun digits more filled decimal same => ?_⟩
  · rintro rfl
    cases begins
  · cases digits with
    | nil => exact filled rfl
    | cons first digits =>
      rw [same, List.cons_append, List.head?_cons, Option.any_some,
        decimal first List.mem_cons_self] at begins
      cases begins

/-- What follows a bare atom makes no counted one of it. -/
theorem beginsCounted_of_isBare (bare : IsBare bytes) (ends : rest.head?.all isDelimiter = true) :
    ¬ beginsCounted (bytes ++ rest) = true := by
  intro counted
  have colonStays : ¬ isDelimiter colon = true := by decide
  obtain ⟨digits, more, filled, decimal, same⟩ := beginsCounted_iff.mp counted
  rcases List.append_eq_append_iff.mp same with ⟨last, rfl, follows⟩ | ⟨last, within, follows⟩
  · rw [follows] at ends
    cases last with
    | nil => exact colonStays ends
    | cons digit last =>
      have delimits : isDelimiter digit = true := ends
      rw [isDelimiter_of_isDigit (decimal digit (by simp))] at delimits
      cases delimits
  · cases last with
    | nil =>
      obtain rfl : colon :: more = rest := follows
      exact colonStays ends
    | cons next last =>
      obtain ⟨rfl, -⟩ := List.cons.inj follows
      exact bare.uncounted digits last filled decimal within

theorem nextToken_bare (bare : IsBare bytes)
    (ends : rest.head?.all isDelimiter = true) :
    nextToken total (bytes ++ rest) = .ok (some (.atom bytes, rest)) := by
  have uncounted := beginsCounted_of_isBare bare ends
  cases bytes with
  | nil => exact absurd rfl bare.filled
  | cons first others =>
    obtain ⟨solid, plain⟩ := List.forall_mem_cons.mp bare.plain
    have inside : ∀ byte ∈ others, (!isDelimiter byte) = true := by
      intro byte member
      rw [plain byte member]
      rfl
    have stops : rest.head?.all (fun next => !!isDelimiter next) = true := by
      simpa only [Bool.not_not] using ends
    rw [List.cons_append] at uncounted ⊢
    rw [nextToken_solid solid, if_neg uncounted, takeWhile_stop inside stops,
      dropWhile_stop inside stops]

end Bare

theorem nextToken_gap (blank : IsGap gap) (input : Bytes) :
    nextToken total (gap ++ input) = nextToken total input := by
  rw [nextToken, List.dropWhile_append_of_pos blank, ← nextToken]

/-- However an atom is written, it is read as that atom. -/
theorem nextToken_of_writesAtom (written : WritesAtom bytes text rest.head?)
    (addressable : text.length < addressLimit) :
    nextToken total (text ++ rest) = .ok (some (.atom bytes, rest)) := by
  cases written with
  | counted length =>
    rw [List.append_assoc, List.cons_append]
    refine nextToken_counted length (Nat.lt_of_le_of_lt ?_ addressable)
    rw [List.length_append, List.length_cons]
    omega
  | hexadecimal digits =>
    rw [List.cons_append, List.append_assoc, List.singleton_append]
    exact nextToken_hexadecimal digits
  | bare plain ends => exact nextToken_bare plain ends

end Tokens

section Lists

/-- What is done with the next token, if there is one. -/
def step (total : Nat) (opened : List (List Expression)) :
    Option (Token × Bytes) → Except Failure Expression
  | none => .error (faultAt total [] (if opened.isEmpty then .unexpectedEnd else .unterminatedList))
  | some (.opening, rest) => build total ([] :: opened) rest
  | some (.closing, rest) =>
    match opened with
    | [] => .error (faultAt total (rightParenthesis :: rest) .emptyToken)
    | [items] => .ok (.list items.reverse)
    | items :: outer :: further => build total ((.list items.reverse :: outer) :: further) rest
  | some (.atom bytes, rest) =>
    match opened with
    | [] => .ok (.atom bytes)
    | items :: further => build total ((.atom bytes :: items) :: further) rest

theorem build_eq : build total opened input = nextToken total input >>= step total opened := by
  rw [build]
  split <;> rename_i found <;> rw [found] <;> rfl

theorem build_gap (blank : IsGap gap) :
    build total opened (gap ++ input) = build total opened input := by
  rw [build_eq, nextToken_gap blank, ← build_eq]

theorem build_opening :
    build total opened (leftParenthesis :: input) = build total ([] :: opened) input := by
  rw [build_eq]
  rfl

theorem build_closing :
    build total (items :: outer :: further) (rightParenthesis :: input) =
      build total ((.list items.reverse :: outer) :: further) input := by
  rw [build_eq]
  rfl

theorem build_last : build total [items] (rightParenthesis :: input) = .ok (.list items.reverse) := by
  rw [build_eq]
  rfl

/-- The members of a list are put on those read before, of which the last is first. -/
theorem build_of_writesItems (written : WritesItems items text)
    (addressable : text.length < addressLimit) :
    build total (outer :: further) (text ++ rightParenthesis :: rest) =
      build total ((items.reverse ++ outer) :: further) (rightParenthesis :: rest) := by
  induction written generalizing outer further rest with
  | done blank => exact build_gap blank
  | @atom gap bytes text more items blank first others ih =>
    simp only [List.length_append] at addressable
    have follows : (more ++ rightParenthesis :: rest).head? = (more ++ [rightParenthesis]).head? := by
      rw [List.head?_append, List.head?_append]
      rfl
    have token : nextToken total (text ++ (more ++ rightParenthesis :: rest)) =
        .ok (some (.atom bytes, more ++ rightParenthesis :: rest)) :=
      nextToken_of_writesAtom (follows ▸ first) (by omega)
    have stacked : build total (outer :: further) (text ++ (more ++ rightParenthesis :: rest)) =
        build total ((.atom bytes :: outer) :: further) (more ++ rightParenthesis :: rest) := by
      rw [build_eq, bind_of_ok token]
      rfl
    rw [List.append_assoc, List.append_assoc, build_gap blank, stacked, ih (by omega),
      List.reverse_cons, List.append_assoc, List.singleton_append]
  | @list gap inner more members items blank first others ihFirst ih =>
    simp only [List.length_append, List.length_cons] at addressable
    rw [List.append_assoc, build_gap blank, List.cons_append, build_opening, List.append_assoc,
      List.cons_append, ihFirst (by omega), build_closing, List.append_nil, List.reverse_reverse,
      ih (by omega), List.reverse_cons, List.append_assoc, List.singleton_append]

end Lists

/-- Any expressions can be the members of a list. -/
theorem exists_writesItems : (items : List Expression) → ∃ text, WritesItems items text
  | [] => ⟨[], .done (List.forall_mem_nil _)⟩
  | .atom bytes :: items => by
    obtain ⟨digits, length⟩ := exists_numeral bytes.length
    obtain ⟨more, others⟩ := exists_writesItems items
    exact ⟨_, .atom (List.forall_mem_nil _) (.counted length) others⟩
  | .list members :: items => by
    obtain ⟨inner, first⟩ := exists_writesItems members
    obtain ⟨more, others⟩ := exists_writesItems items
    exact ⟨_, .list (List.forall_mem_nil _) first others⟩

/-- There is a way to write every expression. -/
theorem exists_writes (tree : Expression) (next : Option UInt8) : ∃ text, Writes tree text next := by
  cases tree with
  | atom bytes =>
    obtain ⟨digits, length⟩ := exists_numeral bytes.length
    exact ⟨_, .atom (.counted length)⟩
  | list items =>
    obtain ⟨text, written⟩ := exists_writesItems items
    exact ⟨_, .list written⟩

/-- An expression is read from anything it can be written as, whatever follows. -/
theorem parse_of_writes (written : Writes tree text rest.head?)
    (addressable : text.length < addressLimit) : parse (text ++ rest) = .ok tree := by
  rw [parse]
  cases written with
  | atom written =>
    rw [build_eq, bind_of_ok (nextToken_of_writesAtom written addressable)]
    rfl
  | @list text items _ written =>
    have shorter : text.length < addressLimit := by
      simp only [List.length_append, List.length_cons] at addressable
      omega
    rw [List.cons_append, build_opening, List.append_assoc, List.singleton_append,
      build_of_writesItems written shorter, build_last, List.append_nil, List.reverse_reverse]

end Expression
end SecureBoot
