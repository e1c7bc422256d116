import SecureBoot.Key
import SecureBoot.Proofs.Rendering

/-!
The keys that signing tokens export. Whichever way the expression for a key is written, the key with
the exported coordinates is made from it.
-/

namespace SecureBoot

namespace Expression

variable {head keyword bytes : Bytes} {items : List Expression}

theorem find?_of_head : find? keyword (.list (.atom keyword :: items)) =
    some (.atom keyword :: items) := by
  rw [find?, List.head?_cons, Option.bind_some, atom?, if_pos rfl]

theorem find?_of_ne (other : head ≠ keyword) :
    find? keyword (.list (.atom head :: items)) = findAmong? keyword items := by
  have differs : ¬ some head = some keyword := fun same => other (Option.some.inj same)
  rw [find?, List.head?_cons, Option.bind_some, atom?, if_neg differs, findAmong?, find?]

end Expression

namespace PublicKey

variable {name : String} {curve : Curve} {x y : Bytes} {format : KeyFormat} {options : KeyOptions}
  {input : Bytes}

/-- A keyword as an atom. -/
def word (text : List Char) : Expression :=
  .atom (Text.utf8 text)

/-- The keyword of the parameters for a named curve. -/
def curveWord (name : String) : List Char :=
  ("ecdsa-" ++ name ++ "-sha384").toList

/-- The parameters of a key on a named curve. -/
def parameters (name : String) (x y : Bytes) : List Expression :=
  [word (curveWord name), .list [word "qx".toList, .atom x], .list [word "qy".toList, .atom y]]

/-- The expression that is exported for a key on a named curve. -/
def exported (name : String) (x y : Bytes) : Expression :=
  .list [word "public-key".toList, .list (parameters name x y)]

theorem curveWord_inj {other : String} : curveWord name = curveWord other ↔ name = other := by
  simp [curveWord, String.toList_inj]

theorem utf8_curveWord_ne {text : List Char} (begins : text.head? ≠ some 'e') :
    Text.utf8 (curveWord name) ≠ Text.utf8 text := by
  intro same
  rw [← Text.utf8_injective same] at begins
  simp [curveWord] at begins

/-- The parameters are found for the curve that they are for, and for no other. -/
theorem find?_exported (other : String) :
    (exported name x y).find? (Text.utf8 (curveWord other)) =
      if name = other then some (parameters name x y) else none := by
  have pair {text : List Char} (begins : text.head? ≠ some 'e') (value : Bytes) :
      Expression.find? (Text.utf8 (curveWord other)) (.list [word text, .atom value]) = none := by
    rw [word, Expression.find?_of_ne (utf8_curveWord_ne begins).symm]
    rfl
  rw [exported, word, Expression.find?_of_ne (utf8_curveWord_ne (by decide)).symm,
    Expression.findAmong?, Expression.findAmong?]
  by_cases same : name = other
  · subst same
    rw [if_pos rfl, parameters, word, Expression.find?_of_head]
  · have apart : Text.utf8 (curveWord name) ≠ Text.utf8 (curveWord other) :=
      fun spelled => same (curveWord_inj.mp (Text.utf8_injective spelled))
    rw [if_neg same, parameters, word, Expression.find?_of_ne apart, Expression.findAmong?,
      pair (by decide), Expression.findAmong?, pair (by decide)]
    rfl

theorem coordinate_x : coordinate (.list (parameters name x y)) .x "qx" = .ok x := by
  have found : Expression.find? (Text.utf8 "qx".toList) (.list (parameters name x y)) =
      some [word "qx".toList, .atom x] := by
    rw [parameters, word, Expression.find?_of_ne (utf8_curveWord_ne (by decide)),
      Expression.findAmong?, word, Expression.find?_of_head]
  rw [coordinate, Expression.valueOf?, found]
  rfl

theorem coordinate_y : coordinate (.list (parameters name x y)) .y "qy" = .ok y := by
  have other : Text.utf8 "qx".toList ≠ Text.utf8 "qy".toList := by decide
  have found : Expression.find? (Text.utf8 "qy".toList) (.list (parameters name x y)) =
      some [word "qy".toList, .atom y] := by
    rw [parameters, word, Expression.find?_of_ne (utf8_curveWord_ne (by decide)),
      Expression.findAmong?, word, Expression.find?_of_ne other, Expression.findAmong?,
      Expression.find?, Expression.findAmong?, Expression.findAmong?, word, Expression.find?_of_head]
  rw [coordinate, Expression.valueOf?, found]
  rfl

/-- The key is made for the first name that is that of the exported curve. -/
theorem ofParameters_exported {names : List (String × Curve)} (member : (name, curve) ∈ names)
    (distinct : (names.map Prod.fst).Nodup) :
    ofParameters format (exported name x y) options names =
      ofCoordinates format curve x y options := by
  induction names with
  | nil => cases member
  | cons first rest ih =>
    obtain ⟨other, another⟩ := first
    obtain ⟨fresh, distinctToo⟩ := List.nodup_cons.mp distinct
    rw [ofParameters, ← curveWord, find?_exported]
    rcases List.mem_cons.mp member with same | later
    · obtain ⟨rfl, rfl⟩ := Prod.mk.inj same
      rw [if_pos rfl]
      dsimp only
      rw [bind_of_ok coordinate_x, bind_of_ok coordinate_y]
    · have apart : name ≠ other := fun same => fresh (List.mem_map.mpr ⟨_, later, same⟩)
      rw [if_neg apart]
      exact ih later distinctToo

theorem ofExport_of_parse (member : (name, curve) ∈ exportNames)
    (parsed : Expression.parse input = .ok (exported name x y)) :
    ofExport format input options = ofCoordinates format curve x y options := by
  have found : (exported name x y).find? (Text.utf8 "public-key".toList) =
      some [word "public-key".toList, .list (parameters name x y)] := Expression.find?_of_head
  rw [ofExport, bind_of_ok parsed, found]
  exact ofParameters_exported member (by decide)

end PublicKey

namespace Expression

variable {tree : Expression} {text rest : Bytes}

/-- Reading undoes every way to write an expression in a text that fits into memory, and the key that
an expression exports is made from every such text. -/
theorem Writes.undone (written : Writes tree text rest.head?)
    (addressable : text.length < addressLimit) :
    parse (text ++ rest) = .ok tree ∧
      ∀ name curve x y format options, (name, curve) ∈ PublicKey.exportNames →
        tree = PublicKey.exported name x y →
          PublicKey.ofExport format (text ++ rest) options =
            PublicKey.ofCoordinates format curve x y options := by
  have parsed : parse (text ++ rest) = .ok tree := parse_of_writes written addressable
  refine ⟨parsed, fun name curve x y format options member same => ?_⟩
  rw [same] at parsed
  exact PublicKey.ofExport_of_parse member parsed

/-- An exported key with atoms in all three forms, some of whose bytes are parentheses. -/
def exportText : Bytes :=
  Text.utf8 "( public-key(ecdsa-prime256v1-sha384\n(#71 78#32:".toList ++
    (List.replicate 32 0x28 ++ (Text.utf8 ")(2:qy ".toList ++
      (List.replicate 32 0x79 ++ Text.utf8 " )))".toList)))

/-- The key in that text. -/
def exportedKey : Expression :=
  PublicKey.exported "prime256v1" (List.replicate 32 0x28) (List.replicate 32 0x79)

theorem writes_exportText : Writes exportedKey exportText none := by
  have blank : IsGap [] := List.forall_mem_nil _
  have space : IsGap [0x20] := List.forall_mem_singleton.mpr rfl
  have newline : IsGap [0x0A] := List.forall_mem_singleton.mpr rfl
  have publicKey : IsBare (Text.utf8 "public-key".toList) :=
    isBare_of_head? rfl (by decide +kernel)
  have ecdsa : IsBare (Text.utf8 (PublicKey.curveWord "prime256v1")) :=
    isBare_of_head? rfl (by decide +kernel)
  have ys : IsBare (List.replicate 32 0x79) := isBare_of_head? rfl (by decide +kernel)
  have qx : Spells (Text.utf8 "qx".toList) (Text.utf8 "71 78".toList) :=
    .cons (.inl rfl) (.cons (.inl rfl) (.cons (.inl rfl) (.cons (.inl rfl) .nil)))
  have two : Numeral 2 [0x32] := @Numeral.first 0x32 rfl
  have three : Numeral 3 [0x33] := @Numeral.first 0x33 rfl
  have thirtyTwo : Numeral 32 [0x33, 0x32] := @Numeral.more 3 [0x33] 0x32 three rfl
  have x := WritesItems.atom blank (.hexadecimal qx)
    (.atom blank (@WritesAtom.counted (List.replicate 32 0x28) _ _ thirtyTwo) (.done blank))
  have y := WritesItems.atom blank (@WritesAtom.counted (Text.utf8 "qy".toList) _ _ two)
    (.atom space (.bare ys rfl) (.done space))
  have parameters := WritesItems.atom blank (.bare ecdsa rfl)
    (.list newline x (.list blank y (.done blank)))
  have key := WritesItems.atom space (.bare publicKey rfl) (.list blank parameters (.done blank))
  convert @Writes.list _ _ none key using 1
  · rfl
  · decide +kernel

/-- The key is made from that text. -/
theorem undone_exportText :
    Writes exportedKey exportText none ∧ exportText.length < addressLimit ∧
      parse exportText = .ok exportedKey ∧
      PublicKey.ofExport .multiRoot exportText {} =
        PublicKey.ofCoordinates .multiRoot .secp256r1 (List.replicate 32 0x28)
          (List.replicate 32 0x79) {} := by
  have addressable : exportText.length < addressLimit := by decide +kernel
  have written : Writes exportedKey exportText ([] : Bytes).head? := writes_exportText
  obtain ⟨parsed, made⟩ := Writes.undone written addressable
  rw [List.append_nil] at parsed made
  exact ⟨written, addressable, parsed,
    made "prime256v1" .secp256r1 _ _ .multiRoot {} (by decide) rfl⟩

end Expression
end SecureBoot
