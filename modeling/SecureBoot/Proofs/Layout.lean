import SecureBoot.Proofs.Span

/-!
Layouts: how a fragment is nested, down to the innermost buffers, which are the only things that
are ever written to. `Fragment.ViewsBytes` says what the byte view of a fragment has to do with its
serialization and its layout; an object made of parts that are viewed so is viewed so again, however
deep the parts are nested and whatever part a range falls on. One thing is different for parts: they
set aside room for a range before they know that it is there, so that a range for which there is never
room is not said to be out of bounds, but ends the program.
-/

namespace SecureBoot

/-- What a fragment is made of: one buffer of a size, or parts laid out one after the other. -/
inductive Layout
  | buffer (size : Nat)
  | parts (members : List Layout)
  deriving Repr

namespace Layout

/-- The sizes of the innermost buffers, in layout order. -/
def sizes : Layout → List Nat
  | buffer size => [size]
  | parts members => sizesOf members
where
  /-- The sizes of the innermost buffers of several layouts. -/
  sizesOf : List Layout → List Nat
    | [] => []
    | first :: rest => sizes first ++ sizesOf rest

/-- The sum of sizes. -/
def total : List Nat → Nat
  | [] => 0
  | size :: rest => size + total rest

/-- The size of everything that is laid out. -/
def size (layout : Layout) : Nat :=
  total layout.sizes

/-- The range lies in one of the pieces that have the given sizes and stand one after the other. -/
def Inside (offset count : Nat) (sizes : List Nat) : Prop :=
  ∃ before size after, sizes = before ++ size :: after ∧
    total before ≤ offset ∧ offset + count ≤ total before + size

/-- A write has a place: it writes nothing, or it stays inside one innermost buffer. -/
def Accepts (layout : Layout) (bytes : Bytes) (offset : Nat) : Prop :=
  bytes = [] ∧ offset ≤ layout.size ∨ Inside offset bytes.length layout.sizes

/-- Reading the range sets aside room that there never is. A lone buffer sets nothing aside. -/
def Overflows (offset count : Nat) : Layout → Prop
  | buffer _ => False
  | parts _ => offset + count < addressLimit ∧ allocationLimit ≤ count

variable {layout : Layout} {layouts : List Layout} {sizes others : List Nat}
  {offset count size : Nat} {bytes : Bytes}

theorem Overflows.addressed (overflows : layout.Overflows offset count) :
    offset + count < addressLimit := by
  cases layout with
  | buffer size => exact overflows.elim
  | parts members => exact overflows.1

theorem allocated_of_fits (fits : ¬ Overflows offset count (parts layouts))
    (addressed : offset + count < addressLimit) : count < allocationLimit :=
  Nat.lt_of_not_le fun huge => fits ⟨addressed, huge⟩

@[simp] theorem total_append : total (sizes ++ others) = total sizes + total others := by
  induction sizes with
  | nil => simp [total]
  | cons first rest ih => simp [total, ih, Nat.add_assoc]

@[simp] theorem inside_nil : ¬ Inside offset count [] := by
  rintro ⟨before, size, after, split, -, -⟩
  simp at split

/-- A range lies in the first piece, or it begins behind it and lies in a later one. -/
theorem inside_cons_iff :
    Inside offset count (size :: sizes) ↔
      offset + count ≤ size ∨ size ≤ offset ∧ Inside (offset - size) count sizes := by
  constructor
  · rintro ⟨before, own, after, split, reached, upTo⟩
    cases before with
    | nil =>
      obtain ⟨rfl, rfl⟩ : size = own ∧ sizes = after := by simpa using split
      left
      simpa [total] using upTo
    | cons first before =>
      obtain ⟨rfl, rfl⟩ : size = first ∧ sizes = before ++ own :: after := by simpa using split
      rw [total] at reached upTo
      exact .inr ⟨by omega, before, own, after, rfl, by omega, by omega⟩
  · rintro (here | ⟨beyond, before, own, after, rfl, reached, upTo⟩)
    · exact ⟨[], size, sizes, rfl, Nat.zero_le _, by simpa [total] using here⟩
    · refine ⟨size :: before, own, after, rfl, ?_, ?_⟩ <;> rw [total] <;> omega

theorem inside_append_iff :
    Inside offset count (sizes ++ others) ↔
      Inside offset count sizes ∨
        total sizes ≤ offset ∧ Inside (offset - total sizes) count others := by
  induction sizes generalizing offset with
  | nil => simp [total]
  | cons first rest ih =>
    rw [List.cons_append, inside_cons_iff, inside_cons_iff, ih, total]
    have shifted : offset - first - total rest = offset - (first + total rest) := by omega
    rw [shifted]
    constructor
    · rintro (here | ⟨beyond, later | ⟨further, later⟩⟩)
      · exact .inl (.inl here)
      · exact .inl (.inr ⟨beyond, later⟩)
      · exact .inr ⟨by omega, later⟩
    · rintro ((here | ⟨beyond, later⟩) | ⟨further, later⟩)
      · exact .inl here
      · exact .inr ⟨beyond, .inl later⟩
      · exact .inr ⟨by omega, .inr ⟨by omega, later⟩⟩

theorem Inside.le_total (inside : Inside offset count sizes) : offset + count ≤ total sizes := by
  obtain ⟨before, size, after, rfl, -, upTo⟩ := inside
  rw [total_append, total]
  omega

theorem accepts_buffer : (buffer size).Accepts bytes offset ↔ offset + bytes.length ≤ size := by
  rw [Accepts, Layout.size, Layout.sizes, inside_cons_iff, total, total]
  constructor
  · rintro (⟨rfl, upTo⟩ | here | ⟨-, later⟩)
    · simpa using upTo
    · exact here
    · exact absurd later inside_nil
  · exact fun here => .inr (.inl here)

/-- The write that is accepted ends where the layout ends, at the latest. -/
theorem Accepts.le_size (accepted : layout.Accepts bytes offset) :
    offset + bytes.length ≤ layout.size := by
  obtain ⟨rfl, upTo⟩ | inside := accepted
  · simpa using upTo
  · exact inside.le_total

end Layout

/-- Fragments whose layout is known. -/
class Nested (α : Type) where
  layout : α → Layout

open Nested (layout)

/-- A range is read as the serialization has it: its bytes are given if the fragment has them, and it
is out of bounds if not. What a fragment has ends below the address limit, as it is in memory. -/
structure Fragment.ReadsSerialized {α : Type} [Fragment α] (fragment : α) (offset count : Nat) :
    Prop where
  inside : offset + count ≤ Fragment.size fragment → offset + count < addressLimit →
    Fragment.readBytes fragment offset count =
      .ok (Bytes.slice (Fragment.toBytes fragment) offset count)
  outside : Fragment.size fragment < offset + count →
    ∃ length, Fragment.readBytes fragment offset count = .error (.outOfBounds offset count length)

/-- The byte view of a fragment is its serialization: sizes, reads, which writes there are and what
they do. Reading a range either shows the serialization or ends the program. -/
structure Fragment.ViewsBytes {α : Type} [Fragment α] [Nested α] (fragment : α) : Prop where
  sized : Fragment.size fragment = (Fragment.toBytes fragment).length
  laid : (layout fragment).size = Fragment.size fragment
  reads {offset count : Nat} : ¬ (layout fragment).Overflows offset count →
    ReadsSerialized fragment offset count
  overflowed {offset count : Nat} : (layout fragment).Overflows offset count →
    Fragment.readBytes fragment offset count = .error (.capacityOverflow count)
  writable {bytes : Bytes} {offset : Nat} :
    (∃ changed, Fragment.writeBytes fragment bytes offset = .ok changed) ↔
      (layout fragment).Accepts bytes offset
  written {bytes : Bytes} {offset : Nat} {changed : α} :
    Fragment.writeBytes fragment bytes offset = .ok changed →
      Fragment.toBytes changed = Bytes.splice (Fragment.toBytes fragment) offset bytes ∧
        layout changed = layout fragment
  kept {bytes : Bytes} {offset : Nat} {failure : Failure} :
    Fragment.writeBytes fragment bytes offset = .error failure →
      (Edit.change (Fragment.writeBytes · bytes offset)).after fragment = fragment

/-- Reading shows the serialization just if it does not set aside room that there never is. -/
theorem Fragment.ViewsBytes.readsSerialized_iff {α : Type} [Fragment α] [Nested α] {fragment : α}
    (view : ViewsBytes fragment) {offset count : Nat} :
    ReadsSerialized fragment offset count ↔ ¬ (layout fragment).Overflows offset count := by
  refine ⟨fun reads overflows => ?_, view.reads⟩
  have ends := view.overflowed overflows
  by_cases inside : offset + count ≤ Fragment.size fragment
  · have given := reads.inside inside overflows.addressed
    rw [ends] at given
    cases given
  · obtain ⟨length, refused⟩ := reads.outside (Nat.lt_of_not_le inside)
    rw [ends] at refused
    cases refused

/-- Fragments each of which is the view of its bytes. -/
class Fragment.Viewed (α : Type) [Fragment α] [Nested α] : Prop where
  view (fragment : α) : ViewsBytes fragment

theorem Bytes.splice_append {front own back patch : Bytes} {offset : Nat}
    (inside : offset + patch.length ≤ own.length) :
    splice (front ++ (own ++ back)) (front.length + offset) patch =
      front ++ (splice own offset patch ++ back) := by
  have before : (front ++ (own ++ back)).take (front.length + offset) = front ++ own.take offset := by
    rw [List.take_length_add_append, List.take_append_of_le_length (by omega)]
  have after : (front ++ (own ++ back)).drop (front.length + offset + patch.length) =
      own.drop (offset + patch.length) ++ back := by
    rw [Nat.add_assoc, List.drop_length_add_append, List.drop_append_of_le_length inside]
  rw [splice, splice, before, after]
  simp only [List.append_assoc]

theorem Bytes.splice_nil (bytes : Bytes) (offset : Nat) : splice bytes offset [] = bytes := by
  rw [splice, List.append_nil, List.length_nil, Nat.add_zero, List.take_append_drop]

namespace Part

variable {σ β : Type} {object changed : σ} {parts others : List (Part σ)} {own : Layout}
  {layouts tail : List Layout} {front back bytes : Bytes} {offset count start : Nat}

theorem scatter_eq_none_iff (behind : start ≤ offset) :
    scatter bytes offset start parts = none ↔ start + totalSize parts ≤ offset := by
  induction parts generalizing start with
  | nil => simp [scatter, totalSize, behind]
  | cons first rest ih =>
    rw [scatter, totalSize]
    by_cases holds : offset < start + first.size
    · rw [if_pos ⟨behind, holds⟩]
      split <;> simp <;> omega
    · rw [if_neg fun both => holds both.2, ih (by omega), Nat.add_assoc]

/-- Whether the range is there is not looked at if it has too many bytes. -/
theorem readSpan_overflowed (addressed : offset + count < addressLimit)
    (overflow : allocationLimit ≤ count) :
    readSpan parts offset count = .error (.capacityOverflow count) := by
  rw [readSpan, bind_of_ok (require_of addressed), require_bind_of_not (Nat.not_lt_of_le overflow)]

/-- A range that leaves the parts is out of bounds: no part is asked for bytes it does not have. -/
theorem readSpan_outside (lawful : ∀ part ∈ parts, part.Lawful object)
    (outside : totalSize parts < offset + count)
    (allocated : offset + count < addressLimit → count < allocationLimit) :
    ∃ length, readSpan parts offset count = .error (.outOfBounds offset count length) := by
  by_cases addressed : offset + count < addressLimit
  · obtain ⟨gathered, ran⟩ : ∃ bytes, gather offset (offset + count) 0 parts = .ok bytes :=
      gather_inside lawful ⟨addressed, allocated addressed⟩
    have beyond : ¬ offset + count ≤ totalSize parts := by omega
    refine ⟨totalSize parts, ?_⟩
    rw [readSpan, bind_of_ok (require_of addressed), bind_of_ok (require_of (allocated addressed)),
      bind_of_ok ran, require_bind_of_not beyond]
  · refine ⟨0, ?_⟩
    rw [readSpan, require_bind_of_not addressed]

variable [Composite σ] [Nested σ]

/-- What writing to a part does to the object, whose bytes before the part are given. -/
structure Writes (object : σ) (front : Bytes) (part : Part σ) (own : Layout) : Prop where
  laid : own.size = part.size
  writable {bytes : Bytes} {offset : Nat} :
    (∃ changed, part.writeBytes bytes offset = .ok changed) ↔ own.Accepts bytes offset
  written {bytes : Bytes} {offset : Nat} {changed : σ} :
    part.writeBytes bytes offset = .ok changed →
      Composite.toBytes changed =
          Bytes.splice (Composite.toBytes object) (front.length + offset) bytes ∧
        layout changed = layout object

/-- The parts stand behind the given bytes of the object, and have the given layouts. -/
inductive Placed (object : σ) : Bytes → List (Part σ) → List Layout → Prop
  | nil {front : Bytes} : Placed object front [] []
  | cons {front : Bytes} {part : Part σ} {parts : List (Part σ)} {own : Layout}
      {layouts : List Layout} : part.Writes object front own →
      Placed object (front ++ part.toBytes ()) parts layouts →
        Placed object front (part :: parts) (own :: layouts)

/-- A component that is put into an object between bytes that stay the same. -/
theorem writes_of [Fragment β] [Nested β] [Fragment.Viewed β] (front back : Bytes) (component : β)
    (put : β → σ)
    (bytes : ∀ other, Composite.toBytes (put other) = front ++ (Fragment.toBytes other ++ back))
    (layouts : ∀ other, layout other = layout component → layout (put other) = layout (put component)) :
    (of component put).Writes (put component) front (layout component) where
  laid := (Fragment.Viewed.view component).laid
  writable := by
    intro patch offset
    rw [← (Fragment.Viewed.view component).writable]
    constructor
    · rintro ⟨changed, written⟩
      obtain ⟨other, wrote, -⟩ := map_eq_ok_iff.mp written
      exact ⟨other, wrote⟩
    · rintro ⟨other, wrote⟩
      exact ⟨put other, map_eq_ok_iff.mpr ⟨other, wrote, rfl⟩⟩
  written := by
    intro patch offset changed written
    have view := Fragment.Viewed.view component
    obtain ⟨other, wrote, rfl⟩ := map_eq_ok_iff.mp written
    obtain ⟨spliced, same⟩ := view.written wrote
    have inside := (view.writable.mp ⟨other, wrote⟩).le_size
    rw [view.laid, view.sized] at inside
    rw [bytes, bytes, spliced, Bytes.splice_append inside]
    exact ⟨rfl, layouts other same⟩

/-- The members of a list that is put into an object between bytes that stay the same. -/
theorem placed_ofList [Fragment β] [Nested β] [Fragment.Viewed β] (front back : Bytes) (items : List β)
    (put : List β → σ)
    (bytes : ∀ list, Composite.toBytes (put list) = front ++ (list.flatMap Fragment.toBytes ++ back))
    (layouts : ∀ list, list.map layout = items.map layout → layout (put list) = layout (put items))
    (rest : Placed (put items) (front ++ items.flatMap Fragment.toBytes) others tail) :
    Placed (put items) front (ofList put items ++ others) (items.map layout ++ tail) := by
  induction items generalizing front put with
  | nil => simpa [ofList] using rest
  | cons first items ih =>
    refine .cons ?_ ?_
    · refine writes_of front (items.flatMap Fragment.toBytes ++ back) first
        (fun other => put (other :: items)) (fun other => ?_) fun other same => ?_
      · rw [bytes, List.flatMap_cons, List.append_assoc]
      · exact layouts (other :: items) (by rw [List.map_cons, List.map_cons, same])
    · refine ih _ (fun list => put (first :: list)) (fun list => ?_) (fun list same => ?_) ?_
      · rw [bytes, List.flatMap_cons, List.append_assoc, List.append_assoc]
        rfl
      · exact layouts (first :: list) (by rw [List.map_cons, List.map_cons, same])
      · rwa [List.flatMap_cons, ← List.append_assoc] at rest

namespace Placed

/-- The innermost buffers of all parts. -/
theorem total_sizesOf (placed : Placed object front parts layouts) :
    Layout.total (Layout.sizes.sizesOf layouts) = totalSize parts := by
  induction placed with
  | nil => rfl
  | cons here _ ih => rw [Layout.sizes.sizesOf, Layout.total_append, ih, totalSize, ← here.laid]; rfl

/-- Whether a part takes the write depends on where its own innermost buffers end. -/
theorem scatter_eq_ok_iff (placed : Placed object front parts layouts) (behind : start ≤ offset) :
    (∃ changed, scatter bytes offset start parts = some (.ok changed)) ↔
      offset < start + totalSize parts ∧
        (bytes = [] ∨
          Layout.Inside (offset - start) bytes.length (Layout.sizes.sizesOf layouts)) := by
  induction placed generalizing start with
  | nil => simp [scatter, totalSize, Nat.not_lt.mpr behind]
  | cons here _ ih =>
    rename_i part parts own layouts _
    have laid : Layout.total own.sizes = part.size := here.laid
    rw [scatter, totalSize, Layout.sizes.sizesOf, Layout.inside_append_iff, laid]
    by_cases holds : offset < start + part.size
    · rw [if_pos ⟨behind, holds⟩]
      -- the write begins in this part, so no later buffer can hold it
      have notBehind : ¬ part.size ≤ offset - start := by omega
      simp only [notBehind, false_and, or_false]
      by_cases crosses : start + part.size < offset + bytes.length
      · have outside : ¬ Layout.Inside (offset - start) bytes.length own.sizes := by
          intro inside
          have := inside.le_total
          omega
        have nonempty : bytes ≠ [] := by
          rintro rfl
          simp at crosses
          omega
        simp [if_pos crosses, outside, nonempty]
      · rw [if_neg crosses]
        simp only [Option.some.injEq, here.writable, Layout.Accepts, Layout.size, laid]
        constructor
        · rintro (⟨rfl, -⟩ | inside)
          · exact ⟨by omega, .inl rfl⟩
          · exact ⟨by omega, .inr inside⟩
        · rintro ⟨-, rfl | inside⟩
          · exact .inl ⟨rfl, by omega⟩
          · exact .inr inside
    · rw [if_neg fun both => holds both.2, ih (by omega)]
      have shifted : offset - start - part.size = offset - (start + part.size) := by omega
      have beyond : part.size ≤ offset - start := by omega
      rw [shifted, Nat.add_assoc]
      constructor
      · rintro ⟨within, rfl | later⟩
        · exact ⟨within, .inl rfl⟩
        · exact ⟨within, .inr (.inr ⟨beyond, later⟩)⟩
      · rintro ⟨within, rfl | inside | ⟨-, later⟩⟩
        · exact ⟨within, .inl rfl⟩
        · -- a range of the buffers before the offset is empty
          have upTo := inside.le_total
          have zero : bytes.length = 0 := by omega
          exact ⟨within, .inl (List.length_eq_zero_iff.mp zero)⟩
        · exact ⟨within, .inr later⟩

/-- What is written to a part is spliced in at its offset in the whole object. -/
theorem scatter_written (placed : Placed object front parts layouts)
    (lawful : ∀ part ∈ parts, part.Lawful object) (behind : front.length ≤ offset)
    (ran : scatter bytes offset front.length parts = some (.ok changed)) :
    Composite.toBytes changed = Bytes.splice (Composite.toBytes object) offset bytes ∧
      layout changed = layout object := by
  induction placed with
  | nil => simp [scatter] at ran
  | cons here _ ih =>
    rename_i front part parts own layouts _
    obtain ⟨first, rest⟩ := List.forall_mem_cons.mp lawful
    have next : (front ++ part.toBytes ()).length = front.length + part.size := by
      rw [List.length_append, first.length_toBytes]
    rw [scatter] at ran
    by_cases holds : offset < front.length + part.size
    · rw [if_pos ⟨behind, holds⟩] at ran
      by_cases crosses : front.length + part.size < offset + bytes.length
      · simp [if_pos crosses] at ran
      · rw [if_neg crosses, Option.some.injEq] at ran
        have whole : front.length + (offset - front.length) = offset := by omega
        simpa only [whole] using here.written ran
    · rw [if_neg fun both => holds both.2, ← next] at ran
      exact ih rest (by omega) ran

theorem writeSpan_eq_ok_iff (placed : Placed object [] parts layouts) :
    (∃ changed, writeSpan object parts bytes offset = .ok changed) ↔
      (Layout.parts layouts).Accepts bytes offset := by
  have sum : Layout.total (Layout.sizes.sizesOf layouts) = totalSize parts := placed.total_sizesOf
  have taken : (∃ changed, scatter bytes offset 0 parts = some (.ok changed)) ↔ _ :=
    placed.scatter_eq_ok_iff (Nat.zero_le offset)
  have missed : scatter bytes offset 0 parts = none ↔ _ :=
    scatter_eq_none_iff (Nat.zero_le offset)
  rw [Nat.zero_add, Nat.sub_zero] at taken
  rw [Nat.zero_add] at missed
  rw [Layout.Accepts, Layout.size, Layout.sizes, sum, writeSpan]
  cases scattered : scatter bytes offset 0 parts with
  | none =>
    have beyond : totalSize parts ≤ offset := missed.mp scattered
    by_cases empty : bytes = [] ∧ offset ≤ totalSize parts
    · simp [empty]
    · have outside : ¬ Layout.Inside offset bytes.length (Layout.sizes.sizesOf layouts) := by
        intro inside
        have upTo := inside.le_total
        have zero : bytes.length = 0 := by omega
        exact empty ⟨List.length_eq_zero_iff.mp zero, by omega⟩
      simp [empty, outside]
  | some outcome =>
    have within : offset < totalSize parts := by
      by_contra beyond
      have nowhere := missed.mpr (by omega)
      rw [scattered] at nowhere
      cases nowhere
    simp only [scattered, Option.some.injEq] at taken ⊢
    rw [taken]
    constructor
    · rintro ⟨-, rfl | inside⟩
      · exact .inl ⟨rfl, by omega⟩
      · exact .inr inside
    · rintro (⟨rfl, -⟩ | inside)
      · exact ⟨within, .inl rfl⟩
      · exact ⟨within, .inr inside⟩

theorem writeSpan_written (placed : Placed object [] parts layouts)
    (lawful : ∀ part ∈ parts, part.Lawful object)
    (ran : writeSpan object parts bytes offset = .ok changed) :
    Composite.toBytes changed = Bytes.splice (Composite.toBytes object) offset bytes ∧
      layout changed = layout object := by
  rw [writeSpan] at ran
  cases scattered : scatter bytes offset 0 parts with
  | some outcome =>
    simp only [scattered] at ran
    rw [ran] at scattered
    exact placed.scatter_written lawful (Nat.zero_le _) scattered
  | none =>
    simp only [scattered] at ran
    split at ran
    · rename_i empty
      obtain rfl : object = changed := by simpa using ran
      rw [List.isEmpty_iff.mp empty.1, Bytes.splice_nil]
      exact ⟨rfl, rfl⟩
    · simp at ran

end Placed

end Part

/-- Objects whose layout is that of their parts. -/
class Composite.Viewed (α : Type) [Composite α] [Nested α] : Prop where
  placed (object : α) : ∃ layouts, layout object = .parts layouts ∧
    Part.Placed object [] (Composite.parts object) layouts

/-- An object made of parts is the view of its bytes. -/
theorem Composite.viewsBytes {α : Type} [Composite α] [Composite.Lawful α] [Nested α]
    [Composite.Viewed α] [Fragment α] (object : α)
    (size : Fragment.size object = Composite.size object)
    (toBytes : ∀ other : α, Fragment.toBytes other = Composite.toBytes other)
    (readBytes : ∀ offset count,
      Fragment.readBytes object offset count = Composite.readBytes object offset count)
    (writeBytes : ∀ bytes offset,
      Fragment.writeBytes object bytes offset = Composite.writeBytes object bytes offset) :
    Fragment.ViewsBytes object where
  sized := by rw [size, toBytes, Composite.length_toBytes]
  laid := by
    obtain ⟨layouts, same, placed⟩ := Composite.Viewed.placed object
    rw [same, size]
    exact placed.total_sizesOf
  reads := by
    intro offset count fits
    obtain ⟨layouts, same, -⟩ := Composite.Viewed.placed object
    rw [same] at fits
    constructor
    · intro inside addressed
      rw [size] at inside
      have copyable : Copyable offset count := ⟨addressed, Layout.allocated_of_fits fits addressed⟩
      rw [readBytes, toBytes, Composite.readBytes_inside inside copyable]
    · intro outside
      rw [size] at outside
      simp only [readBytes]
      exact Part.readSpan_outside (Composite.Lawful.parts object) outside
        (Layout.allocated_of_fits fits)
  overflowed := by
    intro offset count overflows
    obtain ⟨layouts, same, -⟩ := Composite.Viewed.placed object
    rw [same] at overflows
    rw [readBytes]
    exact Part.readSpan_overflowed overflows.1 overflows.2
  writable := by
    intro bytes offset
    obtain ⟨layouts, same, placed⟩ := Composite.Viewed.placed object
    rw [same]
    simp only [writeBytes]
    exact placed.writeSpan_eq_ok_iff
  written := by
    intro bytes offset changed ran
    obtain ⟨layouts, -, placed⟩ := Composite.Viewed.placed object
    rw [writeBytes] at ran
    rw [toBytes, toBytes]
    exact placed.writeSpan_written (Composite.Lawful.parts object) ran
  kept := by
    intro bytes offset failure refused
    exact Edit.after_change_of_error (Fragment.writeBytes · bytes offset) refused

end SecureBoot
