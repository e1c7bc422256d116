import SecureBoot.Image
import SecureBoot.Proofs.Parsing

/-!
Recognizing images. Which reader an image goes to is a function of its first bytes, the route; a
route that was taken is taken again from fewer bytes as long as those it looked at are still there.
What was recognized is valid and has just the bytes that were taken, and it is recognized again from
them, but for a root entry that was cut off before its eighth byte.
-/

namespace SecureBoot

namespace StreamTag

/-- The magic number a tag stands for. -/
def magic : StreamTag → UInt32
  | cmfDescriptor => Magic.cmfDescriptor
  | sectionDescriptor => Magic.sectionDescriptor
  | rootEntry => Magic.rootEntry
  | multiRootEntry => Magic.multiRootEntry
  | publicKeyEntry => Magic.publicKeyEntry

@[simp] theorem ofMagic?_magic (tag : StreamTag) : ofMagic? tag.magic = some tag := by
  cases tag <;> decide

theorem magic_of_ofMagic? {tag : StreamTag} {magic : UInt32} (found : ofMagic? magic = some tag) :
    magic = tag.magic := by
  unfold ofMagic? at found
  split_ifs at found <;> obtain rfl := Option.some.inj found <;> assumption

end StreamTag

namespace Image

open Edit (Serves ServesAgain)

/-- Where an image is read. -/
inductive Route
  | cmf
  | bareSection
  | certificate
  | chain
  | signingModule (kind : ModuleKind) (format : KeyFormat)
  | raw
  deriving DecidableEq

/-- Whether the word behind a header begins a signature or a blank slot for one. -/
def slotFollows (bytes : Bytes) : Bool :=
  Size.header + 4 ≤ bytes.length ∧
    (Bytes.wordAt bytes Size.header = Magic.signature ∨ Bytes.wordAt bytes Size.header = 0)

namespace Route

/-- The route of bytes with a leading tag, if enough of them are there to tell. -/
def ofTag? (bytes : Bytes) : Option StreamTag → Option Route
  | some .cmfDescriptor =>
    some (if slotFollows bytes then signingModule .cmfDescriptor .singleRoot else cmf)
  | some .sectionDescriptor =>
    if bytes.length < 0x10 then none
    else if Bytes.wordAt bytes SectionHeader.sectionTypeOffset ≠ Magic.certificateSection then
      some bareSection
    else some (if slotFollows bytes then signingModule .certificateHeader .singleRoot else certificate)
  | some .rootEntry | some .multiRootEntry => some chain
  | some .publicKeyEntry =>
    if bytes.length < Size.entryHeader + 4 then none
    else some (signingModule .publicKey
      ((KeyFormat.ofMagic? (Bytes.wordAt bytes Size.entryHeader)).getD .singleRoot))
  | none => some raw

/-- The route of bytes, if enough of them are there to tell. -/
def of? (bytes : Bytes) : Option Route :=
  if bytes.length < 4 then none else ofTag? bytes (StreamTag.ofMagic? (Bytes.wordAt bytes 0))

/-- Read the image that a route leads to. -/
def read : Route → Edit Stream Image
  | cmf => readAs Image.cmf Configuration.empty
  | bareSection => readAs Image.bareSection Section.empty
  | certificate => readAs Image.certificate Certificate.empty
  | chain => readAs Image.chain (SignatureChain.expecting none)
  | signingModule kind format => readAs Image.signingModule (SigningModule.empty kind format)
  | raw => do
    let bytes ← Stream.readToEnd
    return Image.raw { Buffer.empty none with bytes := bytes }

/-- How many bytes a route looked at. -/
def reach : Route → Nat
  | cmf | certificate | signingModule .cmfDescriptor _ | signingModule .certificateHeader _ =>
    Size.header + 4
  | bareSection => 0x10
  | signingModule .publicKey _ => Size.entryHeader + 4
  | chain | raw => 4

end Route

variable {bytes more rest : Bytes} {route : Route} {image : Image} {stream left : Stream}

theorem slotFollows_append (enough : Size.header + 4 ≤ bytes.length) (more : Bytes) :
    slotFollows (bytes ++ more) = slotFollows bytes := by
  have long : Size.header + 4 ≤ (bytes ++ more).length := by
    rw [List.length_append]
    exact Nat.le_add_right_of_le enough
  simp only [slotFollows, enough, long, Bytes.wordAt_append_left enough]

private theorem Route.ofTag?_section_of_append
    (found : ofTag? (bytes ++ more) (some .sectionDescriptor) = some route)
    (reaches : route.reach ≤ bytes.length) :
    ofTag? bytes (some .sectionDescriptor) = some route := by
  rw [ofTag?] at found ⊢
  split at found
  · simp at found
  have word {size : Nat} (enough : 0x10 ≤ size) (inside : size ≤ bytes.length) :
      ¬bytes.length < 0x10 ∧ Bytes.wordAt (bytes ++ more) SectionHeader.sectionTypeOffset =
        Bytes.wordAt bytes SectionHeader.sectionTypeOffset :=
    ⟨by omega, Bytes.wordAt_append_left (Nat.le_trans enough inside)⟩
  split at found
  · next other =>
    obtain rfl := Option.some.inj found
    obtain ⟨long, same⟩ := word (Nat.le_refl _) reaches
    rw [same] at other
    rw [if_neg long, if_pos other]
  · next typed =>
    have enough : Size.header + 4 ≤ bytes.length := by
      obtain rfl := Option.some.inj found
      split at reaches <;> exact reaches
    obtain ⟨long, same⟩ := word (by decide) enough
    rw [same] at typed
    rw [slotFollows_append enough] at found
    rw [if_neg long, if_neg typed, found]

private theorem Route.ofTag?_of_append {tag : Option StreamTag}
    (found : ofTag? (bytes ++ more) tag = some route) (reaches : route.reach ≤ bytes.length) :
    ofTag? bytes tag = some route := by
  cases tag with
  | none => exact found
  | some tag =>
    cases tag with
    | rootEntry | multiRootEntry => exact found
    | cmfDescriptor =>
      have enough : Size.header + 4 ≤ bytes.length := by
        obtain rfl := Option.some.inj found
        split at reaches <;> exact reaches
      rw [ofTag?, ← slotFollows_append enough more]
      exact found
    | sectionDescriptor => exact ofTag?_section_of_append found reaches
    | publicKeyEntry =>
      rw [ofTag?] at found ⊢
      split at found
      · simp at found
      have enough : Size.entryHeader + 4 ≤ bytes.length := by
        obtain rfl := Option.some.inj found
        exact reaches
      rw [Bytes.wordAt_append_left enough] at found
      rw [if_neg (by omega), found]

/-- The route does not depend on bytes that it did not look at. -/
theorem Route.of?_of_append (found : of? (bytes ++ more) = some route)
    (reaches : route.reach ≤ bytes.length) : of? bytes = some route := by
  have four : 4 ≤ route.reach := by
    unfold reach
    split <;> decide
  have longer : ¬(bytes ++ more).length < 4 := by
    rw [List.length_append]
    omega
  rw [of?, if_neg longer, Bytes.wordAt_append_left (by omega)] at found
  rw [of?, if_neg (by omega)]
  exact ofTag?_of_append found reaches

theorem serves_moduleFollows (rest : Bytes) : Serves moduleFollows [] rest (slotFollows rest) := by
  refine (Serves.peek (Size.header + 4) rest).last ?_
  by_cases short : (rest.take (Size.header + 4)).length < Size.header + 4
  · have none : slotFollows rest = false := by
      rw [List.length_take] at short
      exact decide_eq_false fun there => absurd there.1 (by omega)
    rw [if_pos short, none]
    exact .pure false rest
  · have enough : Size.header + 4 ≤ rest.length := by
      rw [List.length_take] at short
      omega
    rw [if_neg short, Bytes.wordAt_take (Nat.le_refl _)]
    simp only [slotFollows, enough, true_and, Bool.decide_or]
    exact .pure _ rest

/-- The key layout of a public key entry is found behind its header. -/
theorem serves_sniff_publicKey (leads : Bytes.wordAt rest 0 = Magic.publicKeyEntry)
    (long : Size.entryHeader + 4 ≤ rest.length) :
    Serves ChainEntry.sniff [] rest (some (ChainEntry.empty .publicKey
      ((KeyFormat.ofMagic? (Bytes.wordAt rest Size.entryHeader)).getD .singleRoot))) := by
  have eight : 8 ≤ rest.length := Nat.le_trans (by decide) long
  have whole : (rest.take (Size.entryHeader + 4)).length = Size.entryHeader + 4 :=
    List.length_take_of_le long
  refine (Serves.peek 8 rest).last ?_
  rw [if_neg (by rw [List.length_take_of_le eight]; decide), Bytes.wordAt_take (by decide), leads,
    show EntryKind.ofMagic? Magic.publicKeyEntry = some .publicKey from rfl]
  refine (Serves.peek (Size.entryHeader + 4) rest).last ?_
  refine (Serves.ask fun _ => require_of (Nat.le_of_eq whole.symm)).look ?_
  rw [Bytes.wordAt_take (Nat.le_refl _)]
  exact .pure _ rest

/-- A public key entry is not recognized before the first word of its key is there. -/
private theorem long_of_sniff {entry : ChainEntry} (steady : stream.Steady)
    (leads : Bytes.wordAt stream.unread 0 = Magic.publicKeyEntry)
    (ran : ChainEntry.sniff stream = .ok (some entry) left) :
    Size.entryHeader + 4 ≤ stream.unread.length := by
  simp only [ChainEntry.sniff, Edit.bind_eq_ok_iff] at ran
  obtain ⟨head, looked, peeked, ran⟩ := ran
  obtain ⟨rfl, looks⟩ := Edit.peek_sound steady peeked
  split at ran
  · simp at ran
  rw [Bytes.wordAt_take (by decide), leads,
    show EntryKind.ofMagic? Magic.publicKeyEntry = some .publicKey from rfl] at ran
  simp only [Edit.bind_eq_ok_iff, Edit.ask_eq_ok_iff, require_eq_ok_iff] at ran
  obtain ⟨further, _, peeked, _, _, ⟨long, -⟩, -⟩ := ran
  obtain ⟨rfl, -⟩ := Edit.peek_sound looks.steady peeked
  rw [List.length_take, show looked.unread = stream.unread from looks.unread.symm] at long
  omega

/-- Behind a header the next word decides between two routes. -/
private theorem serves_header {signed unsigned : Route}
    (reads : Serves (if slotFollows (bytes ++ rest) then signed else unsigned).read bytes rest image) :
    Serves (do if ← moduleFollows then signed.read else unsigned.read) bytes rest image := by
  refine (serves_moduleFollows _).look ?_
  split at reads
  · next follows =>
    rw [if_pos follows]
    exact reads
  · next follows =>
    rw [if_neg follows]
    exact reads

private theorem serves_recogniseSection
    (found : Route.ofTag? (bytes ++ rest) (some .sectionDescriptor) = some route)
    (reads : Serves route.read bytes rest image) : Serves recogniseSection bytes rest image := by
  rw [Route.ofTag?] at found
  split at found
  · simp at found
  have whole : ((bytes ++ rest).take 0x10).length = 0x10 := List.length_take_of_le (by omega)
  refine (Serves.peek 0x10 _).look ?_
  refine (Serves.ask fun _ => require_of (Nat.le_of_eq whole.symm)).look ?_
  rw [Bytes.wordAt_take (by decide)]
  split at found
  · next other =>
    obtain rfl := Option.some.inj found
    rw [if_pos other]
    exact reads
  · next typed =>
    obtain rfl := Option.some.inj found
    rw [if_neg typed]
    exact serves_header reads

/-- An image is read along the route of the bytes that come next. -/
private theorem serves_recogniseTag
    (found : Route.ofTag? (bytes ++ rest) (StreamTag.ofMagic? (Bytes.wordAt (bytes ++ rest) 0)) =
      some route) (reads : Serves route.read bytes rest image) :
    Serves (recogniseTag (StreamTag.ofMagic? (Bytes.wordAt (bytes ++ rest) 0))) bytes rest image := by
  cases leads : StreamTag.ofMagic? (Bytes.wordAt (bytes ++ rest) 0) with
  | none =>
    rw [leads] at found
    obtain rfl := Option.some.inj found
    exact reads
  | some tag =>
    rw [leads] at found
    cases tag with
    | rootEntry | multiRootEntry =>
      obtain rfl := Option.some.inj found
      exact reads
    | cmfDescriptor =>
      obtain rfl := Option.some.inj found
      exact serves_header reads
    | sectionDescriptor => exact serves_recogniseSection found reads
    | publicKeyEntry =>
      rw [Route.ofTag?] at found
      split at found
      · simp at found
      obtain rfl := Option.some.inj found
      have magic := StreamTag.magic_of_ofMagic? leads
      refine (serves_sniff_publicKey magic (by omega)).look ?_
      exact reads

theorem serves_recognise (found : Route.of? (bytes ++ rest) = some route)
    (reads : Serves route.read bytes rest image) : Serves recognise bytes rest image := by
  rw [Route.of?] at found
  split at found
  · simp at found
  have whole : ((bytes ++ rest).take 4).length = 4 := List.length_take_of_le (by omega)
  refine (Serves.peek 4 _).look ?_
  refine (Serves.ask fun _ => require_of (Nat.le_of_eq whole.symm)).look ?_
  rw [Bytes.wordAt_take (Nat.le_refl 4)]
  refine (serves_recogniseTag found reads).last ?_
  exact (Serves.isExhausted rest).look (.pure image rest)

private theorem header_sound {signed unsigned : Route} (steady : stream.Steady)
    (ran : (do if ← moduleFollows then signed.read else unsigned.read : Edit Stream Image) stream =
      .ok image left) :
    ∃ between, stream.Advances between [] ∧
      (if slotFollows stream.unread then signed else unsigned).read between = .ok image left := by
  obtain ⟨follows, between, ranLook, ran⟩ := Edit.bind_eq_ok_iff.mp ran
  obtain ⟨rfl, looks⟩ := (serves_moduleFollows stream.unread).sound steady rfl ranLook
  refine ⟨between, looks, ?_⟩
  split at ran
  · next follows =>
    rw [if_pos follows]
    exact ran
  · next follows =>
    rw [if_neg follows]
    exact ran

private theorem recogniseSection_sound (steady : stream.Steady)
    (ran : recogniseSection stream = .ok image left) :
    ∃ route between, Route.ofTag? stream.unread (some .sectionDescriptor) = some route ∧
      stream.Advances between [] ∧ route.read between = .ok image left := by
  simp only [recogniseSection, Edit.bind_eq_ok_iff, Edit.ask_eq_ok_iff, require_eq_ok_iff] at ran
  obtain ⟨_, looked, peeked, _, _, ⟨long, rfl⟩, ran⟩ := ran
  obtain ⟨rfl, looks⟩ := Edit.peek_sound steady peeked
  rw [List.length_take] at long
  rw [Bytes.wordAt_take (by decide)] at ran
  have same : looked.unread = stream.unread := looks.unread.symm
  rw [Route.ofTag?, if_neg (by omega)]
  by_cases typed : Bytes.wordAt stream.unread SectionHeader.sectionTypeOffset ≠
      Magic.certificateSection
  · rw [if_pos typed] at ran ⊢
    exact ⟨.bareSection, looked, rfl, looks, ran⟩
  · rw [if_neg typed] at ran ⊢
    have ran : (do
      if ← moduleFollows then (Route.signingModule .certificateHeader .singleRoot).read
      else Route.certificate.read : Edit Stream Image) looked = .ok image left := ran
    obtain ⟨between, further, read⟩ := header_sound looks.steady ran
    rw [same] at read
    exact ⟨_, between, rfl, looks.trans further, read⟩

private theorem recogniseKeyEntry_sound (steady : stream.Steady)
    (leads : Bytes.wordAt stream.unread 0 = Magic.publicKeyEntry)
    (ran : recogniseKeyEntry stream = .ok image left) :
    ∃ route between, Route.ofTag? stream.unread (some .publicKeyEntry) = some route ∧
      stream.Advances between [] ∧ route.read between = .ok image left := by
  obtain ⟨found, between, sniffed, ran⟩ := Edit.bind_eq_ok_iff.mp ran
  cases found with
  | none => exact absurd ran Edit.throw_ne_ok
  | some entry =>
    have long := long_of_sniff steady leads sniffed
    obtain ⟨same, looks⟩ := (serves_sniff_publicKey leads long).sound steady rfl sniffed
    obtain rfl := Option.some.inj same
    rw [Route.ofTag?, if_neg (by omega)]
    exact ⟨_, between, rfl, looks, ran⟩

/-- An image was read along the route of the bytes that came next. -/
private theorem recogniseTag_sound (steady : stream.Steady)
    (ran : recogniseTag (StreamTag.ofMagic? (Bytes.wordAt stream.unread 0)) stream =
      .ok image left) :
    ∃ route between,
      Route.ofTag? stream.unread (StreamTag.ofMagic? (Bytes.wordAt stream.unread 0)) = some route ∧
        stream.Advances between [] ∧ route.read between = .ok image left := by
  cases leads : StreamTag.ofMagic? (Bytes.wordAt stream.unread 0) with
  | none =>
    rw [leads] at ran
    exact ⟨.raw, stream, rfl, .refl steady, ran⟩
  | some tag =>
    rw [leads] at ran
    cases tag with
    | rootEntry | multiRootEntry => exact ⟨.chain, stream, rfl, .refl steady, ran⟩
    | cmfDescriptor =>
      have ran : (do
        if ← moduleFollows then (Route.signingModule .cmfDescriptor .singleRoot).read
        else Route.cmf.read : Edit Stream Image) stream = .ok image left := ran
      obtain ⟨between, looks, read⟩ := header_sound steady ran
      exact ⟨_, between, rfl, looks, read⟩
    | sectionDescriptor => exact recogniseSection_sound steady ran
    | publicKeyEntry =>
      exact recogniseKeyEntry_sound steady (StreamTag.magic_of_ofMagic? leads) ran

theorem readAs_eq_ok_iff {α : Type} [Fragment α] {wrap : α → Image} {blank : α} :
    readAs wrap blank stream = .ok image left ↔
      ∃ count object, Fragment.read (blank, stream) = .ok count (object, left) ∧
        wrap object = image := by
  simp only [readAs, Edit.bind_eq_ok_iff, Prod.exists, Edit.readNew_eq_ok_iff, Edit.pure_eq_ok_iff]
  constructor
  · rintro ⟨count, object, _, ran, rfl, rfl⟩
    exact ⟨count, object, ran, rfl⟩
  · rintro ⟨count, object, ran, rfl⟩
    exact ⟨count, object, left, ran, rfl, rfl⟩

theorem serves_readAs {α : Type} [Fragment α] {wrap : α → Image} {blank object : α} {count : Nat}
    (takes : Edit.Takes Fragment.read blank bytes rest count object) :
    Serves (readAs wrap blank) bytes rest (wrap object) :=
  (Serves.readNew takes).last (.pure _ rest)

/-- The two kinds of image that may be anything to the end. -/
def Route.Greedy (route : Route) : Prop :=
  route = .cmf ∨ route = .raw

/-- Along every route an image takes just its own bytes, and is valid. -/
theorem Route.read_sound (steady : stream.Steady) (ran : route.read stream = .ok image left) :
    stream.Advances left image.toBytes ∧ image.validate = .ok () ∧
      (route.Greedy → left.unread = []) := by
  cases route with
  | cmf =>
    obtain ⟨_, object, read, rfl⟩ := readAs_eq_ok_iff.mp ran
    obtain ⟨advances, ended, valid⟩ := Configuration.read_sound steady read
    exact ⟨advances, valid, fun _ => ended⟩
  | bareSection =>
    obtain ⟨_, object, read, rfl⟩ := readAs_eq_ok_iff.mp ran
    obtain ⟨advances, -, valid⟩ := Section.read_sound steady read
    exact ⟨advances, valid, by simp [Greedy]⟩
  | certificate =>
    obtain ⟨_, object, read, rfl⟩ := readAs_eq_ok_iff.mp ran
    obtain ⟨advances, valid⟩ := Certificate.read_sound steady read
    exact ⟨advances, valid, by simp [Greedy]⟩
  | chain =>
    obtain ⟨_, object, read, rfl⟩ := readAs_eq_ok_iff.mp ran
    obtain ⟨valid, -, advances, -⟩ := SignatureChain.read_sound steady read
    exact ⟨advances, valid, by simp [Greedy]⟩
  | signingModule kind format =>
    obtain ⟨_, object, read, rfl⟩ := readAs_eq_ok_iff.mp ran
    obtain ⟨advances, valid, -⟩ := SigningModule.read_sound steady read
    exact ⟨advances, valid, by simp [Greedy]⟩
  | raw =>
    obtain ⟨bytes, _, read, ended⟩ := Edit.bind_eq_ok_iff.mp ran
    obtain ⟨rfl, rfl⟩ := Edit.pure_eq_ok_iff.mp ended
    obtain ⟨rfl, advances⟩ := Edit.readToEnd_sound steady read
    exact ⟨advances, Buffer.validate_unbounded stream.unread,
      fun _ => advances.unread_eq (List.append_nil _).symm⟩

/-- What is read along a route that leaves a rest is read again where less of it comes next. -/
theorem Route.again_read (finite : route ≠ .cmf) : ServesAgain route.read := by
  have wrapped {α : Type} [Fragment α] (wrap : α → Image) {blank : α}
      (again : ServesAgain (Edit.readNew blank)) : ServesAgain (readAs wrap blank) :=
    again.bind fun _ => .pure _
  cases route with
  | cmf => exact absurd rfl finite
  | bareSection => exact wrapped _ (.readNew _ Section.again_read)
  | certificate => exact wrapped _ (.readNew _ Certificate.again_read)
  | chain => exact wrapped _ (SignatureChain.again_readNew none)
  | signingModule kind format => exact wrapped _ (.readNew _ SigningModule.again_read)
  | raw => exact ServesAgain.readToEnd.bind fun _ => .pure _

theorem recognise_sound (steady : stream.Steady) (ran : recognise stream = .ok image left) :
    ∃ route between after, Route.of? stream.unread = some route ∧ stream.Advances between [] ∧
      route.read between = .ok image after ∧ after.Advances left [] := by
  simp only [recognise, Edit.bind_eq_ok_iff, Edit.ask_eq_ok_iff, require_eq_ok_iff,
    Edit.pure_eq_ok_iff] at ran
  obtain ⟨_, looked, peeked, _, _, ⟨long, rfl⟩, _, after, ranTag, _, _, ended, rfl, rfl⟩ := ran
  obtain ⟨rfl, looks⟩ := Edit.peek_sound steady peeked
  have same : looked.unread = stream.unread := looks.unread.symm
  rw [List.length_take] at long
  rw [Bytes.wordAt_take (Nat.le_refl 4), ← same] at ranTag
  obtain ⟨route, between, found, further, read⟩ := recogniseTag_sound looks.steady ranTag
  obtain ⟨advances, -⟩ := Route.read_sound further.steady read
  obtain ⟨-, waits⟩ := Edit.isExhausted_sound advances.steady ended
  refine ⟨route, between, after, ?_, looks.trans further, read, waits⟩
  rw [Route.of?, if_neg (by omega), ← same, found]

/-- What was read is as long as what its route looked at, unless it is a chain without entries. -/
theorem Route.reach_le (steady : stream.Steady) (ran : route.read stream = .ok image left)
    (finite : ¬route.Greedy) (nonempty : image ≠ .chain .empty) :
    route.reach ≤ image.toBytes.length := by
  cases route with
  | cmf | raw => simp [Greedy] at finite
  | bareSection =>
    obtain ⟨_, sect, read, rfl⟩ := readAs_eq_ok_iff.mp ran
    obtain ⟨-, -, valid⟩ := Section.read_sound steady read
    exact Nat.le_trans (by decide) (Section.header_le valid)
  | certificate =>
    obtain ⟨_, certificate, read, rfl⟩ := readAs_eq_ok_iff.mp ran
    obtain ⟨-, valid⟩ := Certificate.read_sound steady read
    exact Nat.le_trans (by decide) (Nat.le_of_eq (Certificate.length_of_valid valid).symm)
  | chain =>
    obtain ⟨_, chain, read, rfl⟩ := readAs_eq_ok_iff.mp ran
    obtain ⟨valid, standard, -⟩ := SignatureChain.read_sound steady read
    cases empty : chain.isEmpty with
    | true => exact absurd (congrArg Image.chain (standard.eq_empty valid empty)) nonempty
    | false => exact Nat.le_trans (by decide) (standard.entryHeader_le valid empty)
  | signingModule kind format =>
    obtain ⟨_, signingModule, read, rfl⟩ := readAs_eq_ok_iff.mp ran
    obtain ⟨-, valid, same, keyed⟩ := SigningModule.read_sound steady read
    show reach (.signingModule kind format) ≤ (Fragment.toBytes signingModule).length
    cases kind with
    | cmfDescriptor | certificateHeader =>
      rw [SigningModule.length_of_headed valid (by rw [same]; decide)]
      exact Nat.add_le_add_left (by decide) Size.header
    | publicKey =>
      cases signingModule with
      | cmfDescriptor | certificateHeader => simp [SigningModule.kind] at same
      | publicKey entry =>
        have long := ChainEntry.le_length_of_keyed (SigningModule.validate_publicKey valid)
          (keyed entry rfl)
        rw [SigningModule.toBytes_publicKey]
        exact Nat.le_trans (Nat.add_le_add_left (by decide) Size.entryHeader) long

/-- Which images a route ends with. -/
def Route.Makes : Route → Image → Prop
  | cmf, .cmf _ | bareSection, .bareSection _ | certificate, .certificate _ | chain, .chain _
  | signingModule _ _, .signingModule _ | raw, .raw _ => True
  | _, _ => False

theorem Route.makes_of_read (ran : route.read stream = .ok image left) : route.Makes image := by
  cases route with
  | cmf | bareSection | certificate | chain | signingModule =>
    obtain ⟨_, object, -, rfl⟩ := readAs_eq_ok_iff.mp ran
    trivial
  | raw =>
    obtain ⟨_, _, -, ended⟩ := Edit.bind_eq_ok_iff.mp ran
    obtain ⟨rfl, -⟩ := Edit.pure_eq_ok_iff.mp ended
    trivial

/-- Configurations and bytes of no known kind are read to the end. -/
theorem Route.Makes.greedy (makes : route.Makes image)
    (kind : (∃ object, image = .cmf object) ∨ (∃ object, image = .raw object)) : route.Greedy := by
  rcases kind with ⟨object, rfl⟩ | ⟨object, rfl⟩
  · cases route with
    | cmf => exact .inl rfl
    | bareSection | certificate | chain | signingModule | raw => exact makes.elim
  · cases route with
    | raw => exact .inr rfl
    | cmf | bareSection | certificate | chain | signingModule => exact makes.elim

/-- The bytes begin like a root entry but end before the eighth byte. -/
def CutOffRoot (bytes : Bytes) : Prop :=
  bytes.length < 8 ∧
    (Bytes.wordAt bytes 0 = Magic.rootEntry ∨ Bytes.wordAt bytes 0 = Magic.multiRootEntry)

/-- The route of chains is that of root entries. -/
theorem Route.of?_eq_chain_iff :
    of? bytes = some chain ↔ 4 ≤ bytes.length ∧
      (Bytes.wordAt bytes 0 = Magic.rootEntry ∨ Bytes.wordAt bytes 0 = Magic.multiRootEntry) := by
  rw [of?]
  by_cases short : bytes.length < 4
  · rw [if_pos short]
    exact iff_of_false (by simp) fun long => by omega
  rw [if_neg short]
  constructor
  · intro found
    refine ⟨by omega, ?_⟩
    cases leads : StreamTag.ofMagic? (Bytes.wordAt bytes 0) with
    | none => simp [leads, ofTag?] at found
    | some tag =>
      have magic := StreamTag.magic_of_ofMagic? leads
      rw [leads] at found
      cases tag with
      | rootEntry => exact .inl magic
      | multiRootEntry => exact .inr magic
      | cmfDescriptor | sectionDescriptor | publicKeyEntry =>
        rw [ofTag?] at found
        split_ifs at found <;> simp at found
  · rintro ⟨-, leads | leads⟩ <;> rw [leads] <;> rfl

/-- A chain without entries is what is made of a root entry that was cut off. -/
theorem Route.empty_chain_iff (steady : stream.Steady) (found : of? stream.unread = some route)
    (ran : route.read stream = .ok image left) :
    image = .chain .empty ↔ CutOffRoot stream.unread := by
  constructor
  · rintro rfl
    have made := makes_of_read ran
    cases route with
    | cmf | bareSection | certificate | signingModule | raw => exact made.elim
    | chain =>
      obtain ⟨_, _, read, same⟩ := readAs_eq_ok_iff.mp ran
      obtain rfl := Image.chain.inj same
      obtain ⟨-, -, advances, -, -, stopped⟩ := SignatureChain.read_sound steady read
      have untaken : left.unread = stream.unread := advances.unread.symm
      obtain ⟨-, leads⟩ := of?_eq_chain_iff.mp found
      have absent : ChainEntry.NoEntry stream.unread := by
        rw [← untaken]
        exact (stopped rfl).resolve_left (by decide)
      refine ⟨absent.resolve_right ?_, leads⟩
      rcases leads with root | root <;> rw [root] <;> decide
  · rintro ⟨short, leads⟩
    have enough : 4 ≤ stream.unread.length := by
      by_contra few
      rw [of?, if_pos (by omega)] at found
      contradiction
    obtain rfl : route = chain := by
      rw [of?_eq_chain_iff.mpr ⟨enough, leads⟩] at found
      exact (Option.some.inj found).symm
    obtain ⟨_, object, read, rfl⟩ := readAs_eq_ok_iff.mp ran
    obtain ⟨valid, standard, advances, -⟩ := SignatureChain.read_sound steady read
    cases empty : object.isEmpty with
    | true => rw [standard.eq_empty valid empty]
    | false =>
      have long : Size.entryHeader ≤ _ := standard.entryHeader_le valid empty
      have length := congrArg List.length advances.unread
      rw [List.length_append] at length
      exact absurd (Nat.le_trans long (Nat.le.intro length.symm)) (by rw [Size.entryHeader]; omega)

/-- A chain with entries begins like its root entry and is long enough to be told. -/
theorem Route.of?_chain {chain : SignatureChain} (standard : chain.Standard)
    (valid : chain.validate = .ok ()) (filled : chain.isEmpty = false) (rest : Bytes) :
    of? (Fragment.toBytes chain ++ rest) = some .chain := by
  obtain ⟨-, ordered, each⟩ := standard.validate_eq_ok_iff.mp valid
  have fine := standard.entries
  have there : chain.entries.items ≠ [] := List.isEmpty_eq_false_iff.mp filled
  obtain ⟨first, others, items⟩ := List.exists_cons_of_ne_nil there
  rw [SignatureChain.kinds, items] at ordered
  rw [items] at each fine
  obtain ⟨rooted, -⟩ := ordered
  have headed := (fine first List.mem_cons_self).header
  have validFirst := each first List.mem_cons_self
  have whole := ChainEntry.header_size headed validFirst
  have enough : 0 + 4 ≤ first.header.bytes.length := by
    rw [show first.header.bytes.length = _ from whole]
    decide
  have magic := ChainEntry.header_magic headed validFirst
  have leads : Bytes.wordAt (Fragment.toBytes chain ++ rest) 0 = first.kind.magic := by
    rw [SignatureChain.toBytes_eq, items, List.flatMap_cons, ChainEntry.toBytes_eq]
    simp only [List.append_assoc]
    rw [Bytes.wordAt_append_left enough, magic]
  rw [of?_eq_chain_iff, leads]
  constructor
  · have long := standard.entryHeader_le valid filled
    rw [List.length_append]
    exact Nat.le_add_right_of_le (Nat.le_trans (by decide) long)
  · cases kind : first.kind with
    | root => exact .inl rfl
    | multiRoot => exact .inr rfl
    | publicKey | block0 => simp [kind, EntryKind.isRoot] at rooted

/-- A valid chain with entries is recognized from its own bytes. -/
theorem serves_chain {chain : SignatureChain} (standard : chain.Standard)
    (valid : chain.validate = .ok ()) (filled : chain.isEmpty = false)
    (ends : chain.isTerminated = true ∨ ChainEntry.NoEntry rest) :
    Serves recognise (Fragment.toBytes chain) rest (.chain chain) :=
  serves_recognise (Route.of?_chain standard valid filled rest)
    (serves_readAs (SignatureChain.takes_read standard valid (.inr ⟨rfl, ends⟩)))

theorem ofBytes_of_serves (serves : Serves recognise bytes [] image) :
    ofBytes bytes = .ok image := by
  have held : (Stream.ofBytes bytes).unread = bytes ++ [] :=
    (Stream.unread_ofBytes bytes).trans (List.append_nil _).symm
  obtain ⟨left, ran, -⟩ := serves _ (Stream.steady_ofBytes bytes) held
  exact Edit.answer_eq_ok_iff.mpr ⟨left, ran⟩

/-- No image is parsed from fewer bytes than a magic number has. -/
theorem four_le_of_parsed (parsed : ofBytes bytes = .ok image) : 4 ≤ bytes.length := by
  obtain ⟨_, ran⟩ := Edit.answer_eq_ok_iff.mp parsed
  obtain ⟨_, _, _, found, -⟩ := recognise_sound (Stream.steady_ofBytes bytes) ran
  rw [Stream.unread_ofBytes] at found
  by_contra few
  rw [Route.of?, if_pos (Nat.lt_of_not_le few)] at found
  contradiction

/-- What was read along a route that leaves a rest is parsed from its own bytes again. -/
theorem Route.parsed_again (steady : stream.Steady) (found : of? stream.unread = some route)
    (ran : route.read stream = .ok image left) (finite : ¬route.Greedy)
    (nonempty : image ≠ .chain .empty) : ofBytes image.toBytes = .ok image := by
  obtain ⟨advances, -⟩ := read_sound steady ran
  obtain ⟨taken, same, again⟩ := again_read (fun cmf => finite (.inl cmf)) steady ran
  obtain rfl : taken = image.toBytes :=
    List.append_cancel_right (same.unread.symm.trans advances.unread)
  have reaches := reach_le steady ran finite nonempty
  have found : of? (image.toBytes ++ []) = some route := by
    rw [List.append_nil]
    exact of?_of_append (advances.unread ▸ found) reaches
  exact ofBytes_of_serves (serves_recognise found (again [] List.nil_prefix))

/-- An image that was parsed from bytes is valid, and its own bytes are those that were taken from
the front: all of them for a configuration and for bytes of no known kind. It is parsed from its
own bytes again, just when it is not what was made of a root entry that was cut off. -/
theorem parsed_again_iff (parsed : ofBytes bytes = .ok image) :
    image.validate = .ok () ∧
      (∃ left, recognise (Stream.ofBytes bytes) = .ok image left ∧
        left.position = image.toBytes.length) ∧
      image.toBytes <+: bytes ∧
      ((∃ object, image = .cmf object) ∨ (∃ object, image = .raw object) → image.toBytes = bytes) ∧
      (ofBytes image.toBytes = .ok image ↔ ¬CutOffRoot bytes) := by
  obtain ⟨left, ran⟩ := Edit.answer_eq_ok_iff.mp parsed
  obtain ⟨route, between, after, found, looks, read, waits⟩ :=
    recognise_sound (Stream.steady_ofBytes bytes) ran
  obtain ⟨advances, valid, ended⟩ := Route.read_sound looks.steady read
  have held : between.unread = bytes :=
    looks.unread_eq ((Stream.unread_ofBytes bytes).trans (List.nil_append bytes).symm)
  rw [Stream.unread_ofBytes, ← held] at found
  have split : image.toBytes ++ after.unread = bytes := advances.unread.symm.trans held
  have all : route.Greedy → image.toBytes = bytes := fun greedy => by
    rw [← split, ended greedy, List.append_nil]
  have cutOff := Route.empty_chain_iff looks.steady found read
  rw [held] at cutOff
  refine ⟨valid, ⟨left, ran, ?_⟩, ⟨_, split⟩, fun kind => all ?_, ?_, fun whole => ?_⟩
  · rw [waits.position, advances.position, looks.position, Stream.position_ofBytes]
    simp
  · exact (Route.makes_of_read read).greedy kind
  · intro again cut
    obtain rfl := cutOff.mpr cut
    exact absurd (four_le_of_parsed again) (by decide)
  · by_cases greedy : route.Greedy
    · rwa [all greedy]
    · exact Route.parsed_again looks.steady found read greedy fun empty => whole (cutOff.mp empty)

/-- A closed chain in front of a byte of something else. -/
theorem parsed_again_iff_closedChain :
    ∃ chain, SignatureChain.closedChain = .ok chain ∧
      ofBytes (Fragment.toBytes chain ++ [7]) = .ok (.chain chain) ∧
      ¬CutOffRoot (Fragment.toBytes chain ++ [7]) ∧
      ofBytes (Fragment.toBytes chain) = .ok (.chain chain) := by
  obtain ⟨chain, built, closed, two, size⟩ := SignatureChain.closedChain_exists
  obtain ⟨standard, valid⟩ := SignatureChain.standard_closedChain built
  have filled : chain.isEmpty = false := Bool.eq_false_iff.mpr fun empty => by
    rw [standard.eq_empty valid empty] at two
    exact absurd two (by decide)
  obtain ⟨left, ran, -⟩ := serves_chain standard valid filled (.inl closed)
    (Stream.ofBytes (Fragment.toBytes chain ++ [7])) (Stream.steady_ofBytes _)
    (Stream.unread_ofBytes _)
  have parsed : ofBytes (Fragment.toBytes chain ++ [7]) = .ok (.chain chain) :=
    Edit.answer_eq_ok_iff.mpr ⟨left, ran⟩
  have whole : ¬CutOffRoot (Fragment.toBytes chain ++ [7]) := by
    rintro ⟨short, -⟩
    rw [List.length_append, Fragment.Lawful.length_toBytes, show Fragment.size chain = _ from size]
      at short
    simp at short
  obtain ⟨-, -, -, -, again⟩ := parsed_again_iff parsed
  exact ⟨chain, built, parsed, whole, again.mpr whole⟩

/-- The magic number of a root entry alone is parsed as the chain without entries, which has no
bytes to parse again. -/
theorem rootMagic_not_parsed_again :
    ofBytes [0x92, 0x07, 0x05, 0x71] = .ok (.chain .empty) ∧
      ofBytes (Image.chain .empty).toBytes = .error (.unknownStreamFormat (.noMagic 0)) := by
  decide +kernel

end Image
end SecureBoot
