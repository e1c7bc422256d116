import SecureBoot.Key
import SecureBoot.Proofs.Sequence

/-!
Public keys in a stream. A key is `Standard` when its buffer is laid out as the constructors lay it
out, which every way of building, changing and reading a key keeps. A valid standard key announces
its own size, so it is read back from its bytes whatever follows them.
-/

namespace SecureBoot.PublicKey

variable {key : PublicKey} {format : KeyFormat} {bytes rest : Bytes} {count : Nat}
  {stream left : Stream} {answer : Unit}

instance : Fragment.Lawful PublicKey where
  length_toBytes _ := rfl
  readBytes_sound := Buffer.getRaw_eq_ok_iff.mp
  readBytes_inside inside _ := Buffer.getRaw_eq_ok_iff.mpr ⟨inside, rfl⟩
  writeBytes_same := by
    intro key changed bytes offset same written
    simp only [Fragment.writeBytes, bind_eq_ok_iff, Buffer.setRaw_eq_ok_iff, pure_eq_ok_iff] at written
    obtain ⟨_, ⟨inside, rfl⟩, rfl⟩ := written
    have kept : Bytes.splice key.buffer.bytes offset bytes = key.buffer.bytes :=
      Bytes.splice_of_slice_eq inside same
    rw [kept]

/-- The buffer of the key is laid out as for an empty key of its format. -/
def Standard (key : PublicKey) : Prop :=
  key.buffer.Follows (empty key.format).buffer

theorem standard_empty (format : KeyFormat) : (empty format).Standard :=
  .self _ fun _ _ => Nat.zero_le _

theorem standard_ofCoordinates {curve : Curve} {x y : Bytes} {options : KeyOptions}
    (ran : ofCoordinates format curve x y options = .ok key) :
    key.Standard ∧ key.format = format := by
  simp only [ofCoordinates, fillIn, bind_eq_ok_iff, pure_eq_ok_iff, Edit.result_eq_ok_iff,
    Edit.bind_eq_ok_iff, Edit.change_eq_ok_iff] at ran
  obtain ⟨_, -, buffer, ⟨_, _, b1, cleared, _, b2, first, _, b3, second, _, b4, third, _, b5,
    fourth, _, b6, fifth, _, b7, sixth, seventh⟩, rfl⟩ := ran
  have blank := standard_empty format
  exact ⟨(((((((blank.reset cleared).setWord first).setWord second).setWord third).setWord
    fourth).setWord fifth).setRaw sixth).setRaw seventh, rfl⟩

/-- What a key that is there and valid holds: its magic number, a curve and the size of both. -/
theorem validate_filled (valid : key.validate = .ok answer) (filled : key.isEmpty = false) :
    (∃ curve, Curve.ofMagic? (Bytes.wordAt key.buffer.bytes curveOffset) = some curve) ∧
      key.buffer.validate = .ok () ∧ Size.publicKeyHeader ≤ key.size ∧
      announcedSize key.format (key.buffer.bytes.take Size.publicKeyHeader) = .ok key.size := by
  rw [validate, filled] at valid
  simp only [Bool.false_eq_true, if_false, bind_eq_ok_iff, require_eq_ok_iff,
    exists_unit_iff] at valid
  obtain ⟨found, named, known, buffer, x, sizeX, y, sizeY, whole⟩ := valid
  obtain ⟨curve, rfl⟩ := Option.isSome_iff_exists.mp known
  have answered : key.curve? = .ok (some curve) := named
  simp only [curve?, bind_eq_ok_iff, Buffer.getWord_eq_ok_iff, pure_eq_ok_iff] at named
  obtain ⟨_, ⟨-, rfl⟩, named⟩ := named
  have short {offset : Nat} (within : offset + 4 ≤ Size.publicKeyHeader) :=
    Bytes.wordAt_take within key.buffer.bytes
  refine ⟨⟨curve, named⟩, buffer, by omega, ?_⟩
  cases layout : key.format with
  | singleRoot =>
    simp only [xSize, ySize, layout, bind_eq_ok_iff, Buffer.getWord_eq_ok_iff,
      pure_eq_ok_iff] at sizeX sizeY
    obtain ⟨_, ⟨-, rfl⟩, rfl⟩ := sizeX
    obtain ⟨_, ⟨-, rfl⟩, rfl⟩ := sizeY
    rw [announcedSize, short (by decide), short (by decide), ← whole, Nat.add_assoc]
  | multiRoot =>
    simp only [xSize, ySize, layout, curveSize, answered, bind_eq_ok_iff, Except.ok.injEq,
      exists_eq_left', pure_eq_ok_iff] at sizeX sizeY
    subst sizeX sizeY
    rw [announcedSize, short (by decide), named, ← whole, Nat.add_assoc, ← Nat.two_mul]

theorem magic_of_valid (standard : key.Standard) (valid : key.buffer.validate = .ok answer) :
    4 ≤ key.size ∧ Bytes.wordAt key.buffer.bytes 0 = key.format.magic := by
  obtain ⟨-, stand, -⟩ := Buffer.validate_eq_ok_iff.mp valid
  rw [standard.magics] at stand
  exact stand (key.format.magic, 0) (by simp [empty, Buffer.withMagic, Buffer.empty])

private theorem takes_readAnnounced {header : Bytes} (standard : key.Standard)
    (valid : key.validate = .ok ()) (announced : announcedSize key.format header = .ok key.size) :
    Edit.Takes (readAnnounced key.format header) (empty key.format) key.buffer.bytes rest key.size
      key := by
  have bounded : key.size ≤ Size.publicKeyLimit := standard.bounded _ rfl
  have grown : (do
      return { empty key.format with
        buffer := ← (empty key.format).buffer.append key.buffer.bytes } :
          Except Failure PublicKey) = .ok key := by
    simp only [bind_eq_ok_iff, pure_eq_ok_iff]
    exact ⟨key.buffer, standard.append_blank rfl, rfl⟩
  refine .look (.ask fun _ => announced) (.look (.ask fun _ => require_of bounded) ?_)
  refine .last (.fromStream (.takeExactly rfl .publicKey) _) ?_
  refine .look (.onObject (Edit.change_of_ok grown) rest) ?_
  refine .look (.onObject (Edit.ask_eq_ok_iff.mpr ⟨valid, rfl⟩) rest) ?_
  exact .pure key.size key rest

/-- A key that is there is read back from its own bytes. -/
theorem takes_read (standard : key.Standard) (valid : key.validate = .ok ())
    (filled : key.isEmpty = false) (rest : Bytes) :
    Edit.Takes read (empty key.format) key.buffer.bytes rest key.size key := by
  obtain ⟨-, buffer, long, announced⟩ := validate_filled valid filled
  obtain ⟨-, magic⟩ := magic_of_valid standard buffer
  have header : (key.buffer.bytes ++ rest).take Size.publicKeyHeader =
      key.buffer.bytes.take Size.publicKeyHeader := List.take_append_of_le_length long
  have whole : (key.buffer.bytes.take Size.publicKeyHeader).length = Size.publicKeyHeader :=
    List.length_take_of_le long
  have leads : Bytes.wordAt (key.buffer.bytes.take Size.publicKeyHeader) 0 = key.format.magic := by
    rw [Bytes.wordAt_take (by decide), magic]
  refine .get_bind fun stream _ => ?_
  refine .look (.fromStream (.peek Size.publicKeyHeader _) _) ?_
  rw [header, whole, leads, KeyFormat.ofMagic?_magic]
  rw [if_neg (by decide), if_neg (by simp)]
  exact .look (.ask fun _ => require_of rfl) (takes_readAnnounced standard valid announced)

theorem filled_iff : key.isEmpty = false ↔ 0 < key.size := by
  rw [isEmpty, Buffer.isEmpty, List.isEmpty_eq_false_iff, ← List.length_pos_iff]
  rfl

theorem readable (standard : key.Standard) (valid : key.validate = .ok ())
    (filled : key.isEmpty = false) : Sequence.Readable key := by
  refine ⟨filled_iff.mp filled, fun room rest => ⟨empty key.format, ?_,
    takes_read standard valid filled rest⟩⟩
  obtain ⟨-, buffer, long, -⟩ := validate_filled valid filled
  obtain ⟨four, magic⟩ := magic_of_valid standard buffer
  have front : (key.buffer.bytes ++ rest).take 4 = key.buffer.bytes.take 4 :=
    List.take_append_of_le_length four
  have head : (key.buffer.bytes.take 4).length = 4 := List.length_take_of_le four
  have leads : KeyFormat.ofMagic? (Bytes.wordAt (key.buffer.bytes.take 4) 0) = some key.format := by
    rw [Bytes.wordAt_take (by decide), magic, KeyFormat.ofMagic?_magic]
  have peeks := Edit.Serves.peek 4 (key.buffer.bytes ++ rest)
  rw [front] at peeks
  refine peeks.last ?_
  rw [if_neg (by omega), leads]
  exact .pure _ _

private theorem readAnnounced_sound {header : Bytes} (steady : stream.Steady)
    (ran : readAnnounced format header (empty format, stream) = .ok count (key, left)) :
    stream.Advances left key.buffer.bytes ∧ count = key.size ∧ key.Standard ∧ key.format = format := by
  simp only [readAnnounced, Edit.bind_eq_ok_iff, Prod.exists, Edit.ask_eq_ok_iff, Prod.mk.injEq,
    Edit.fromStream_eq_ok_iff, Edit.onObject_eq_ok_iff, Edit.change_eq_ok_iff,
    Edit.pure_eq_ok_iff] at ran
  obtain ⟨total, _, _, ⟨-, rfl, rfl⟩, _, _, _, ⟨-, rfl, rfl⟩, bytes, _, _, ⟨took, rfl⟩, _, _, _,
    ⟨grew, rfl⟩, _, _, _, ⟨⟨-, rfl⟩, rfl⟩, rfl, rfl, rfl⟩ := ran
  obtain ⟨exact, advances⟩ := Edit.takeExactly_sound steady took
  simp only [bind_eq_ok_iff, pure_eq_ok_iff] at grew
  obtain ⟨buffer, grew, rfl⟩ := grew
  have follows := (standard_empty format).append grew
  obtain ⟨-, rfl⟩ := Buffer.append_eq_ok_iff.mp grew
  exact ⟨advances, exact.symm, follows, rfl⟩

/-- Reading an empty key takes just the bytes it has in the end. -/
theorem read_sound (steady : stream.Steady)
    (ran : read (empty format, stream) = .ok count (key, left)) :
    stream.Advances left key.buffer.bytes ∧ count = key.size ∧ key.Standard ∧ key.format = format := by
  simp only [read, Edit.bind_eq_ok_iff, Edit.get_eq_ok_iff] at ran
  obtain ⟨_, _, ⟨rfl, rfl⟩, ran⟩ := ran
  have blank : ¬(!(empty format).isEmpty) = true := by simp [isEmpty, empty, Buffer.isEmpty,
    Buffer.withMagic, Buffer.empty]
  have stopped {other : Stream} (advances : stream.Advances other [])
      (out : (pure 0 : Edit (PublicKey × Stream) Nat) (empty format, other) = .ok count (key, left)) :
      stream.Advances left key.buffer.bytes ∧ count = key.size ∧ key.Standard ∧
        key.format = format := by
    simp only [Edit.pure_eq_ok_iff, Prod.mk.injEq] at out
    obtain ⟨rfl, rfl, rfl⟩ := out
    exact ⟨advances, rfl, standard_empty format, rfl⟩
  rw [if_neg blank] at ran
  simp only [Edit.bind_eq_ok_iff, Prod.exists, Edit.fromStream_eq_ok_iff] at ran
  obtain ⟨header, _, looked, ⟨peeked, rfl⟩, ran⟩ := ran
  obtain ⟨-, looks⟩ := Edit.peek_sound steady peeked
  by_cases short : header.length < 4
  · rw [if_pos short] at ran
    exact stopped looks ran
  rw [if_neg short] at ran
  by_cases unknown : (KeyFormat.ofMagic? (Bytes.wordAt header 0)).isNone = true
  · rw [if_pos unknown] at ran
    exact stopped looks ran
  rw [if_neg unknown] at ran
  simp only [Edit.bind_eq_ok_iff, Prod.exists, Edit.ask_eq_ok_iff, Prod.mk.injEq] at ran
  obtain ⟨_, _, _, ⟨-, rfl, rfl⟩, ran⟩ := ran
  obtain ⟨advances, rest⟩ := readAnnounced_sound looks.steady ran
  exact ⟨looks.trans advances, rest⟩

theorem sound : Sequence.Sound PublicKey.Standard := by
  intro room stream between allocated steady ran
  simp only [Allocate.allocate, Edit.bind_eq_ok_iff] at ran
  obtain ⟨head, looked, peeked, ran⟩ := ran
  obtain ⟨-, looks⟩ := Edit.peek_sound steady peeked
  by_cases short : head.length < 4
  · rw [if_pos short, Edit.pure_eq_ok_iff] at ran
    obtain ⟨rfl, rfl⟩ := ran
    exact ⟨looks, by simp⟩
  rw [if_neg short, Edit.pure_eq_ok_iff] at ran
  obtain ⟨rfl, rfl⟩ := ran
  refine ⟨looks, ?_⟩
  intro blank key count left chosen ran
  obtain ⟨format, -, rfl⟩ := Option.map_eq_some_iff.mp chosen
  obtain ⟨advances, counted, standard, -⟩ := read_sound looks.steady ran
  exact ⟨advances, counted, standard⟩

end SecureBoot.PublicKey
