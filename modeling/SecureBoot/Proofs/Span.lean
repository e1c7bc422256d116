import SecureBoot.Buffer
import SecureBoot.Proofs.Buffer

/-!
Fragments as views of their bytes. A lawful fragment has as many bytes as its size says, reads a
range as the slice of its bytes, and is not changed by writing what it holds already. An object
made of lawful parts is lawful again, however the ranges fall on its parts.
-/

namespace SecureBoot

/-- A range that can be copied: its end is an address, and room for its bytes can be set aside. -/
structure Copyable (offset count : Nat) : Prop where
  addressed : offset + count < addressLimit
  allocated : count < allocationLimit

theorem Copyable.of_lt {offset count : Nat} (small : offset + count < allocationLimit) :
    Copyable offset count :=
  ⟨Nat.lt_trans small (by decide), Nat.lt_of_le_of_lt (Nat.le_add_left _ _) small⟩

/-- What reading and writing at an offset have to do with the serialized bytes. -/
class Fragment.Lawful (α : Type) [Fragment α] : Prop where
  length_toBytes (fragment : α) : (Fragment.toBytes fragment).length = Fragment.size fragment
  readBytes_sound {fragment : α} {offset count : Nat} {bytes : Bytes} :
    Fragment.readBytes fragment offset count = .ok bytes →
      offset + count ≤ Fragment.size fragment ∧
        Bytes.slice (Fragment.toBytes fragment) offset count = bytes
  readBytes_inside {fragment : α} {offset count : Nat} :
    offset + count ≤ Fragment.size fragment → Copyable offset count →
      Fragment.readBytes fragment offset count =
        .ok (Bytes.slice (Fragment.toBytes fragment) offset count)
  writeBytes_same {fragment changed : α} {bytes : Bytes} {offset : Nat} :
    Bytes.slice (Fragment.toBytes fragment) offset bytes.length = bytes →
      Fragment.writeBytes fragment bytes offset = .ok changed → changed = fragment

/-- What is written into a fragment with the property, wherever it is, leaves it the property. -/
def Fragment.WriteKeeps {α : Type} [Fragment α] (fine : α → Prop) : Prop :=
  ∀ ⦃fragment changed : α⦄ ⦃bytes : Bytes⦄ ⦃offset : Nat⦄, fine fragment →
    Fragment.writeBytes fragment bytes offset = .ok changed → fine changed

theorem Fragment.WriteKeeps.and {α : Type} [Fragment α] {fine good : α → Prop}
    (keeps : WriteKeeps fine) (keepsToo : WriteKeeps good) :
    WriteKeeps fun fragment => fine fragment ∧ good fragment :=
  fun _ _ _ _ held ran => ⟨keeps held.1 ran, keepsToo held.2 ran⟩

/-- Whatever can be done to every fragment, writing, reading and refreshing, keeps the property,
whether it succeeds or fails. -/
structure Fragment.Maintains {α : Type} [Fragment α] (fine : α → Prop) : Prop where
  writes : WriteKeeps fine
  reads : Edit.Keeps (Edit.First fine) Fragment.read
  updates : Edit.Keeps fine Fragment.update

/-- The same of a part: writing what it holds already gives the object back. -/
structure Part.Lawful {σ : Type} (object : σ) (part : Part σ) : Prop where
  length_toBytes : (part.toBytes ()).length = part.size
  readBytes_sound {offset count : Nat} {bytes : Bytes} :
    part.readBytes offset count = .ok bytes →
      offset + count ≤ part.size ∧ Bytes.slice (part.toBytes ()) offset count = bytes
  readBytes_inside {offset count : Nat} :
    offset + count ≤ part.size → Copyable offset count →
      part.readBytes offset count = .ok (Bytes.slice (part.toBytes ()) offset count)
  writeBytes_same {changed : σ} {bytes : Bytes} {offset : Nat} :
    Bytes.slice (part.toBytes ()) offset bytes.length = bytes →
      part.writeBytes bytes offset = .ok changed → changed = object

/-- Objects all of whose parts are lawful. -/
class Composite.Lawful (α : Type) [Composite α] : Prop where
  parts (object : α) : ∀ part ∈ Composite.parts object, part.Lawful object

namespace Part

variable {σ α : Type} {object changed : σ} {part : Part σ} {parts others : List (Part σ)}
  {bytes : Bytes} {offset finish start count : Nat}

theorem lawful_of [Fragment α] [Fragment.Lawful α] (fragment : α) (put : α → σ) :
    (of fragment put).Lawful (put fragment) where
  length_toBytes := Fragment.Lawful.length_toBytes fragment
  readBytes_sound := Fragment.Lawful.readBytes_sound
  readBytes_inside := Fragment.Lawful.readBytes_inside
  writeBytes_same := by
    intro changed bytes offset same written
    obtain ⟨component, wrote, rfl⟩ := map_eq_ok_iff.mp written
    rw [Fragment.Lawful.writeBytes_same same wrote]

theorem lawful_ofList [Fragment α] [Fragment.Lawful α] (items : List α) (put : List α → σ) :
    ∀ part ∈ ofList put items, part.Lawful (put items) := by
  induction items generalizing put with
  | nil => simp [ofList]
  | cons first rest ih =>
    rw [ofList, List.forall_mem_cons]
    exact ⟨lawful_of first fun changed => put (changed :: rest),
      ih fun changed => put (first :: changed)⟩

@[simp] theorem totalSize_append :
    totalSize (parts ++ others) = totalSize parts + totalSize others := by
  induction parts with
  | nil => simp [totalSize]
  | cons first rest ih => simp [totalSize, ih, Nat.add_assoc]

@[simp] theorem serialize_append :
    serialize (parts ++ others) = serialize parts ++ serialize others := by
  induction parts with
  | nil => simp [serialize]
  | cons first rest ih => simp [serialize, ih]

@[simp] theorem totalSize_ofList [Fragment α] (items : List α) (put : List α → σ) :
    totalSize (ofList put items) = Fragment.totalSize items := by
  induction items generalizing put with
  | nil => rfl
  | cons first rest ih => simp [ofList, totalSize, Fragment.totalSize, ih, of]

@[simp] theorem serialize_ofList [Fragment α] (items : List α) (put : List α → σ) :
    serialize (ofList put items) = items.flatMap Fragment.toBytes := by
  induction items generalizing put with
  | nil => rfl
  | cons first rest ih => simp [ofList, serialize, ih, of]

theorem validateAll_eq_ok_iff {answer : Unit} :
    validateAll parts = .ok answer ↔ ∀ part ∈ parts, part.validate () = .ok () := by
  induction parts with
  | nil => simp [validateAll]
  | cons first rest ih => simp [validateAll, ih]

theorem validate_ofList [Fragment α] {items : List α} {put : List α → σ} :
    (∀ part ∈ ofList put items, part.validate () = .ok ()) ↔
      ∀ item ∈ items, Fragment.validate item = .ok () := by
  induction items generalizing put with
  | nil => simp [ofList]
  | cons first rest ih => simp [ofList, ih, of]

theorem length_serialize (lawful : ∀ part ∈ parts, part.Lawful object) :
    (serialize parts).length = totalSize parts := by
  induction parts with
  | nil => rfl
  | cons first rest ih =>
    obtain ⟨here, others⟩ := List.forall_mem_cons.mp lawful
    rw [serialize, totalSize, List.length_append, here.length_toBytes, ih others]

/-- A range that begins in one part goes on in the next ones. -/
private theorem slice_append (front back : Bytes) (offset count : Nat) :
    Bytes.slice (front ++ back) offset count =
      Bytes.slice front offset count ++
        Bytes.slice back (offset - front.length) (count - (front.length - offset)) := by
  rw [Bytes.slice, Bytes.slice, Bytes.slice, List.drop_append, List.take_append, List.length_drop]

private theorem slice_min (bytes : Bytes) (offset finish : Nat) :
    Bytes.slice bytes offset (min finish bytes.length - offset) =
      Bytes.slice bytes offset (finish - offset) := by
  rw [Bytes.slice, Bytes.slice]
  by_cases short : finish ≤ bytes.length
  · rw [Nat.min_eq_left short]
  · rw [Nat.min_eq_right (by omega), List.take_of_length_le (by simp),
      List.take_of_length_le (by simp; omega)]

/-- What a part beginning at `start` contributes to the range from `offset` to `finish`. -/
def own (offset finish start : Nat) (part : Part σ) : Except Failure Bytes :=
  if offset < start + part.size ∧ start < finish then
    part.readBytes (max offset start - start)
      (min finish (start + part.size) - start - (max offset start - start))
  else .ok []

theorem gather_cons : gather offset finish start (part :: parts) = (do
    let mine ← own offset finish start part
    let rest ← gather offset finish (start + part.size) parts
    return mine ++ rest) := by
  rw [gather, own]
  split <;> rfl

/-- A part contributes what of the range falls on it. -/
theorem own_sound (lawful : part.Lawful object) (read : own offset finish start part = .ok bytes) :
    bytes = Bytes.slice (part.toBytes ()) (offset - start) ((finish - start) - (offset - start)) := by
  have front : max offset start - start = offset - start := by omega
  have back : min finish (start + part.size) - start = min (finish - start) part.size := by omega
  have exact := lawful.length_toBytes
  rw [own, front, back] at read
  by_cases meets : offset < start + part.size ∧ start < finish
  · rw [if_pos meets, ← exact] at read
    obtain ⟨-, same⟩ := lawful.readBytes_sound read
    rw [← same, slice_min]
  · rw [if_neg meets] at read
    obtain rfl : bytes = [] := by simpa using read.symm
    rw [Bytes.slice]
    by_cases before : start < finish
    · have beyond : (part.toBytes ()).length ≤ offset - start := by omega
      rw [List.drop_eq_nil_of_le beyond, List.take_nil]
    · have nothing : finish - start - (offset - start) = 0 := by omega
      rw [nothing, List.take_zero]

theorem own_inside (lawful : part.Lawful object) (copyable : Copyable offset count) :
    ∃ bytes, own offset (offset + count) start part = .ok bytes := by
  obtain ⟨addressed, allocated⟩ := copyable
  by_cases meets : offset < start + part.size ∧ start < offset + count
  · rw [own, if_pos meets]
    exact ⟨_, lawful.readBytes_inside (by omega) ⟨by omega, by omega⟩⟩
  · rw [own, if_neg meets]
    exact ⟨[], rfl⟩

theorem gather_sound (lawful : ∀ part ∈ parts, part.Lawful object)
    (ran : gather offset finish start parts = .ok bytes) :
    bytes = Bytes.slice (serialize parts) (offset - start) ((finish - start) - (offset - start)) := by
  induction parts generalizing start bytes with
  | nil =>
    obtain rfl : bytes = [] := by simpa [gather] using ran.symm
    simp [serialize, Bytes.slice]
  | cons first rest ih =>
    obtain ⟨here, others⟩ := List.forall_mem_cons.mp lawful
    rw [gather_cons] at ran
    simp only [bind_eq_ok_iff, pure_eq_ok_iff] at ran
    obtain ⟨mine, read, more, readOn, rfl⟩ := ran
    rw [own_sound here read, ih others readOn, serialize, slice_append, here.length_toBytes]
    congr 2 <;> omega

theorem gather_inside (lawful : ∀ part ∈ parts, part.Lawful object)
    (copyable : Copyable offset count) :
    ∃ bytes, gather offset (offset + count) start parts = .ok bytes := by
  induction parts generalizing start with
  | nil => exact ⟨[], rfl⟩
  | cons first rest ih =>
    obtain ⟨here, others⟩ := List.forall_mem_cons.mp lawful
    obtain ⟨mine, read⟩ := own_inside here copyable
    obtain ⟨more, readOn⟩ := ih others
    exact ⟨mine ++ more, by rw [gather_cons, bind_of_ok read, bind_of_ok readOn]; rfl⟩

theorem readSpan_sound (lawful : ∀ part ∈ parts, part.Lawful object)
    (ran : readSpan parts offset count = .ok bytes) :
    offset + count ≤ totalSize parts ∧ Bytes.slice (serialize parts) offset count = bytes := by
  simp only [readSpan, bind_eq_ok_iff, require_eq_ok_iff, pure_eq_ok_iff, exists_unit_iff] at ran
  obtain ⟨-, -, gathered, ran, inside, rfl⟩ := ran
  have same := gather_sound lawful ran
  rw [Nat.sub_zero, Nat.sub_zero, Nat.add_sub_cancel_left] at same
  exact ⟨inside, same.symm⟩

theorem readSpan_inside (lawful : ∀ part ∈ parts, part.Lawful object)
    (inside : offset + count ≤ totalSize parts) (copyable : Copyable offset count) :
    readSpan parts offset count = .ok (Bytes.slice (serialize parts) offset count) := by
  obtain ⟨gathered, ran⟩ : ∃ bytes, gather offset (offset + count) 0 parts = .ok bytes :=
    gather_inside lawful copyable
  have same := gather_sound lawful ran
  rw [Nat.sub_zero, Nat.sub_zero, Nat.add_sub_cancel_left] at same
  rw [readSpan, bind_of_ok (require_of copyable.addressed), bind_of_ok (require_of copyable.allocated),
    bind_of_ok ran, bind_of_ok (require_of inside), same]
  rfl

theorem scatter_same (lawful : ∀ part ∈ parts, part.Lawful object) (beyond : start ≤ offset)
    (same : Bytes.slice (serialize parts) (offset - start) bytes.length = bytes)
    (ran : scatter bytes offset start parts = some (.ok changed)) : changed = object := by
  induction parts generalizing start with
  | nil => simp [scatter] at ran
  | cons first rest ih =>
    obtain ⟨here, others⟩ := List.forall_mem_cons.mp lawful
    have exact := here.length_toBytes
    rw [serialize] at same
    rw [scatter] at ran
    by_cases holds : start ≤ offset ∧ offset < start + first.size
    · rw [if_pos holds] at ran
      by_cases crosses : start + first.size < offset + bytes.length
      · simp [if_pos crosses] at ran
      · rw [if_neg crosses, Option.some.injEq] at ran
        rw [Bytes.slice_append_left (by omega)] at same
        exact here.writeBytes_same same ran
    · rw [if_neg holds] at ran
      have later : offset - start - (first.toBytes ()).length = offset - (start + first.size) := by
        omega
      rw [Bytes.slice_append_right (by omega), later] at same
      exact ih others (by omega) same ran

theorem writeSpan_same (lawful : ∀ part ∈ parts, part.Lawful object)
    (same : Bytes.slice (serialize parts) offset bytes.length = bytes)
    (ran : writeSpan object parts bytes offset = .ok changed) : changed = object := by
  rw [writeSpan] at ran
  cases scattered : scatter bytes offset 0 parts with
  | some outcome =>
    simp only [scattered] at ran
    rw [ran] at scattered
    exact scatter_same lawful (Nat.zero_le _) same scattered
  | none =>
    simp only [scattered] at ran
    split at ran
    · simpa using ran.symm
    · simp at ran

/-- What is written into the part, wherever it is, leaves an object with the property. -/
def Leaves (fine : σ → Prop) (part : Part σ) : Prop :=
  ∀ ⦃bytes : Bytes⦄ ⦃offset : Nat⦄ ⦃changed : σ⦄,
    part.writeBytes bytes offset = .ok changed → fine changed

section Leaving

variable [Fragment α] {fine : σ → Prop} {inner : α → Prop}

theorem leaves_of {fragment : α} {put : α → σ} (writes : Fragment.WriteKeeps inner)
    (held : inner fragment) (stored : ∀ component, inner component → fine (put component)) :
    (of fragment put).Leaves fine := by
  intro bytes offset changed written
  obtain ⟨component, wrote, rfl⟩ := map_eq_ok_iff.mp written
  exact stored component (writes held wrote)

/-- Writing into a list of fragments rewrites one of them. -/
theorem leaves_ofList {items : List α} {put : List α → σ} (writes : Fragment.WriteKeeps inner)
    (each : ∀ item ∈ items, inner item)
    (stored : ∀ others : List α, others.length = items.length → (∀ item ∈ others, inner item) →
      fine (put others)) : ∀ part ∈ ofList put items, part.Leaves fine := by
  induction items generalizing put with
  | nil => simp [ofList]
  | cons first rest ih =>
    obtain ⟨here, later⟩ := List.forall_mem_cons.mp each
    refine List.forall_mem_cons.mpr ⟨leaves_of writes here fun changed kept => ?_,
      ih later fun others same kept => ?_⟩
    · exact stored (changed :: rest) rfl (List.forall_mem_cons.mpr ⟨kept, later⟩)
    · exact stored (first :: others) (congrArg (· + 1) same) (List.forall_mem_cons.mpr ⟨here, kept⟩)

theorem scatter_leaves (each : ∀ part ∈ parts, part.Leaves fine)
    (ran : scatter bytes offset start parts = some (.ok changed)) : fine changed := by
  induction parts generalizing start with
  | nil => cases ran
  | cons first rest ih =>
    obtain ⟨here, others⟩ := List.forall_mem_cons.mp each
    rw [scatter] at ran
    by_cases holds : start ≤ offset ∧ offset < start + first.size
    · rw [if_pos holds] at ran
      by_cases crosses : start + first.size < offset + bytes.length
      · rw [if_pos crosses] at ran
        cases ran
      · rw [if_neg crosses, Option.some.injEq] at ran
        exact here ran
    · rw [if_neg holds] at ran
      exact ih others ran

/-- What is written into an object is written into one of its parts, if it is anything at all. -/
theorem writeSpan_leaves (fine : σ → Prop) (held : fine object) (each : ∀ part ∈ parts, part.Leaves fine)
    (ran : writeSpan object parts bytes offset = .ok changed) : fine changed := by
  rw [writeSpan] at ran
  cases scattered : scatter bytes offset 0 parts with
  | some outcome =>
    simp only [scattered] at ran
    rw [ran] at scattered
    exact scatter_leaves each scattered
  | none =>
    simp only [scattered] at ran
    split at ran
    · rwa [← Except.ok.inj ran]
    · cases ran

end Leaving

end Part

namespace Composite

variable {α : Type} [Composite α]

theorem validateParts_eq_ok_iff {object : α} {answer : Unit} :
    validateParts object = .ok answer ↔ ∀ part ∈ parts object, part.validate () = .ok () :=
  Part.validateAll_eq_ok_iff

variable [Composite.Lawful α]

theorem length_toBytes (object : α) : (toBytes object).length = size object :=
  Part.length_serialize (Lawful.parts object)

theorem readBytes_sound {object : α} {offset count : Nat} {bytes : Bytes}
    (read : readBytes object offset count = .ok bytes) :
    offset + count ≤ size object ∧ Bytes.slice (toBytes object) offset count = bytes :=
  Part.readSpan_sound (Lawful.parts object) read

theorem readBytes_inside {object : α} {offset count : Nat} (inside : offset + count ≤ size object)
    (copyable : Copyable offset count) :
    readBytes object offset count = .ok (Bytes.slice (toBytes object) offset count) :=
  Part.readSpan_inside (Lawful.parts object) inside copyable

theorem writeBytes_same {object changed : α} {bytes : Bytes} {offset : Nat}
    (same : Bytes.slice (toBytes object) offset bytes.length = bytes)
    (written : writeBytes object bytes offset = .ok changed) : changed = object :=
  Part.writeSpan_same (Lawful.parts object) same written

end Composite

instance : Fragment.Lawful Buffer where
  length_toBytes _ := rfl
  readBytes_sound := Buffer.getRaw_eq_ok_iff.mp
  readBytes_inside inside _ := Buffer.getRaw_eq_ok_iff.mpr ⟨inside, rfl⟩
  writeBytes_same := by
    intro buffer changed bytes offset same written
    obtain ⟨inside, rfl⟩ := Buffer.setRaw_eq_ok_iff.mp written
    rw [Bytes.splice_of_slice_eq inside same]

theorem Buffer.Follows.writeKeeps (blank : Buffer) : Fragment.WriteKeeps (Buffer.Follows · blank) :=
  fun _ _ _ _ follows ran => follows.setRaw ran

theorem Buffer.Follows.maintained (blank : Buffer) : Fragment.Maintains (Buffer.Follows · blank) :=
  ⟨writeKeeps blank, keeps_read, keeps_updateCrc⟩

theorem Buffer.writeKeeps_size (count : Nat) : Fragment.WriteKeeps (Buffer.size · = count) :=
  fun _ _ _ _ same ran => (Buffer.size_setRaw ran).trans same

/-- An object that is one buffer has the bytes of that buffer. -/
theorem Buffered.lawful {α : Type} [Buffered α]
    (put : ∀ object : α, withBuffer object (buffer object) = object) :
    @Fragment.Lawful α fragment :=
  letI : Fragment α := fragment
  { length_toBytes := fun _ => rfl
    readBytes_sound := Buffer.getRaw_eq_ok_iff.mp
    readBytes_inside := fun inside _ => Buffer.getRaw_eq_ok_iff.mpr ⟨inside, rfl⟩
    writeBytes_same := by
      intro object changed bytes offset same written
      obtain ⟨other, wrote, rfl⟩ := map_eq_ok_iff.mp written
      have kept : other = buffer object := Fragment.Lawful.writeBytes_same same wrote
      rw [kept, put] }

end SecureBoot
