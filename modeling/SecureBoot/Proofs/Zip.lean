import Mathlib.Data.List.Nodup
import SecureBoot.Proofs.Bytes
import SecureBoot.Proofs.Deflate
import SecureBoot.Proofs.Text
import SecureBoot.Zip.Container

/-!
Containers that are written and read again. Where a container holds a record, the numbers of that
record are read; so its end record leads to its directory, the directory lists every entry under its
name with the offset of its record, and the record gives back the contents. Only a container with as
many entries as mark a larger end record is left out.
-/

namespace SecureBoot.Zip

variable {source : Array UInt8} {offset position size value : Nat} {piece first second : Bytes}
  {values : List (Nat × Nat)} {entry : Entry} {entries : List Entry}

section Pieces

/-- The source has a piece at an offset. -/
def Holds (source : Array UInt8) (offset : Nat) (piece : Bytes) : Prop :=
  ∃ front back : Bytes, source.toList = front ++ (piece ++ back) ∧ front.length = offset

theorem Holds.left (there : Holds source offset (first ++ second)) : Holds source offset first := by
  obtain ⟨front, back, split, reached⟩ := there
  rw [List.append_assoc] at split
  exact ⟨front, second ++ back, split, reached⟩

theorem Holds.right (there : Holds source offset (first ++ second)) :
    Holds source (offset + first.length) second := by
  obtain ⟨front, back, split, reached⟩ := there
  refine ⟨front ++ first, back, ?_, ?_⟩
  · rw [split, List.append_assoc, List.append_assoc]
  · rw [List.length_append, reached]

/-- Nothing at all is there behind a piece. -/
theorem Holds.behind (there : Holds source offset piece) :
    Holds source (offset + piece.length) [] := by
  rw [← List.append_nil piece] at there
  exact there.right

theorem Holds.le_size (there : Holds source offset piece) : offset + piece.length ≤ source.size := by
  obtain ⟨front, back, split, rfl⟩ := there
  rw [← Array.length_toList, split, List.length_append, List.length_append]
  omega

theorem Holds.range (there : Holds source offset piece) :
    range source offset piece.length = piece := by
  obtain ⟨front, back, split, rfl⟩ := there
  rw [Zip.range, Array.toList_extract, List.extract_eq_take_drop, split, List.drop_left' rfl,
    Nat.add_sub_cancel_left, List.take_left' rfl]

theorem Holds.bytes? (there : Holds source offset piece) :
    bytes? source offset piece.length = some piece := by
  rw [Zip.bytes?, if_pos there.le_size, there.range]

theorem fields_append (before after : List (Nat × Nat)) :
    fields (before ++ after) = fields before ++ fields after :=
  List.flatMap_append

/-- The numbers of a record are read where they stand. -/
theorem Holds.number? (there : Holds source offset (fields values)) (index : Nat)
    (found : values[index]? = some (size, value)) (small : value < Bytes.capacity size) :
    number? source (offset + (fields (values.take index)).length) size = some value := by
  obtain ⟨inside, same⟩ := List.getElem?_eq_some_iff.mp found
  have split : fields values = fields (values.take index) ++
      (Bytes.digits size value ++ fields (values.drop (index + 1))) := by
    conv_lhs => rw [← List.take_append_drop index values, List.drop_eq_getElem_cons inside, same]
    exact fields_append _ _
  rw [split] at there
  have read := there.right.left.bytes?
  rw [Bytes.length_digits] at read
  rw [Zip.number?, read, Option.map_some, Bytes.value_digits, Nat.mod_eq_of_lt small]

end Pieces

/-- Without extra fields a listing stays as it is. -/
theorem Listing.corrected?_nil {listing : Listing} (plain : listing.method ≠ cipherMethod) :
    listing.corrected? [] = some listing := by
  have done : Correction.readFields ([] : Bytes).length ⟨listing, []⟩ = .ok () ⟨listing, []⟩ := rfl
  rw [corrected?, done]
  exact if_neg fun both => plain both.1

namespace Entry

/-- The way of packing, as a number. -/
def method (entry : Entry) : Nat :=
  if entry.stored then 0 else 8

/-- What the directory says of an entry whose record is at an offset. -/
def listed (entry : Entry) (offset : Nat) : Listing :=
  ⟨entry.name, Text.utf8 entry.name.toList, "", 0x0800, entry.method, checksum entry.bytes,
    entry.packed.length, entry.bytes.length, offset, false⟩

/-- The member that an entry becomes. -/
def member (entry : Entry) : Member :=
  ⟨entry.name, false, entry.method, checksum entry.bytes, some entry.packed⟩

/-- Numbers that an entry brings with it have room in its records. -/
structure Fits (entry : Entry) : Prop where
  name : (Text.utf8 entry.name.toList).length < Bytes.capacity 2
  packed : entry.packed.length < Bytes.capacity 4

theorem length_le_packed (entry : Entry) : entry.bytes.length ≤ entry.packed.length := by
  rw [packed]
  split
  · exact Nat.le_refl _
  · exact Deflate.length_le_pack entry.bytes

/-- The numbers of an entry that its record and its place in the directory have in common. -/
def described (entry : Entry) : List (Nat × Nat) :=
  [(2, 20), (2, 0x0800), (2, entry.method), (2, 0), (2, 0x21), (4, (checksum entry.bytes).toNat),
    (4, entry.packed.length), (4, entry.bytes.length),
    (2, (Text.utf8 entry.name.toList).length), (2, 0)]

theorem record_eq (entry : Entry) :
    entry.record = fields ((4, Record.member.magic) :: entry.described) ++
      (Text.utf8 entry.name.toList ++ entry.packed) := by
  rw [record, description, ← fields_append, List.append_assoc]
  rfl

/-- The numbers in the place of an entry in the directory. -/
def listedNumbers (entry : Entry) (offset : Nat) : List (Nat × Nat) :=
  (4, Record.directoryEntry.magic) :: (2, 20) ::
    (entry.described ++ [(2, 0), (2, 0), (2, 0), (4, 0), (4, offset)])

theorem listing_eq (entry : Entry) (offset : Nat) :
    entry.listing offset = fields (entry.listedNumbers offset) ++ Text.utf8 entry.name.toList := by
  rw [listing, description, ← fields_append, ← fields_append]
  rfl

theorem method_lt (entry : Entry) : entry.method < Bytes.capacity 2 := by
  rw [method]
  split <;> decide

theorem length_listing_pos (entry : Entry) (offset : Nat) : 0 < (entry.listing offset).length := by
  have numbers : (fields (entry.listedNumbers offset)).length = 46 := rfl
  rw [listing_eq, List.length_append, numbers]
  omega

theorem isAt_listing (there : Holds source position (entry.listing offset)) :
    Record.directoryEntry.isAt source position = true := by
  rw [listing_eq] at there
  exact decide_eq_true (there.left.number? 0 rfl (by decide))

/-- Where the directory holds the place of an entry, that entry is listed. -/
theorem at?_listing (there : Holds source position (entry.listing offset)) (fits : entry.Fits)
    (small : offset < Bytes.capacity 4) :
    Listing.at? source position =
      some (entry.listed offset, position + (entry.listing offset).length) := by
  rw [listing_eq] at there ⊢
  have numbers := there.left
  have kind : number? source position 4 = some Record.directoryEntry.magic :=
    numbers.number? 0 rfl (by decide)
  have flags : number? source (position + 8) 2 = some 0x0800 := numbers.number? 3 rfl (by decide)
  have method : number? source (position + 10) 2 = some entry.method :=
    numbers.number? 4 rfl entry.method_lt
  have crc : number? source (position + 16) 4 = some (checksum entry.bytes).toNat :=
    numbers.number? 7 rfl (checksum entry.bytes).toNat_lt
  have packedSize : number? source (position + 20) 4 = some entry.packed.length :=
    numbers.number? 8 rfl fits.packed
  have size : number? source (position + 24) 4 = some entry.bytes.length :=
    numbers.number? 9 rfl (Nat.lt_of_le_of_lt entry.length_le_packed fits.packed)
  have nameSize : number? source (position + 28) 2 = some (Text.utf8 entry.name.toList).length :=
    numbers.number? 10 rfl fits.name
  have extraSize : number? source (position + 30) 2 = some 0 := numbers.number? 11 rfl (by decide)
  have commentSize : number? source (position + 32) 2 = some 0 := numbers.number? 12 rfl (by decide)
  have record : number? source (position + 42) 4 = some offset := numbers.number? 16 rfl small
  have name : bytes? source (position + 46) _ = some (Text.utf8 entry.name.toList) :=
    there.right.bytes?
  have nothing : bytes? source (position + 46 + (Text.utf8 entry.name.toList).length) 0 = some [] :=
    there.right.behind.bytes?
  have text : Listing.text 0x0800 (Text.utf8 entry.name.toList) = entry.name := by
    rw [Listing.text, if_pos (by decide), Text.chars_utf8, String.ofList_toList]
  have plain : entry.method ≠ Listing.cipherMethod := by
    rw [Entry.method]
    split <;> decide
  simp only [Listing.at?, Record.isAt, kind, flags, method, crc, packedSize, size, nameSize,
    extraSize, commentSize, record, name, nothing, text, Record.size, Option.bind_eq_bind,
    Option.bind_some, Nat.add_zero, UInt32.ofNat_toNat]
  rw [if_neg (by decide), Listing.corrected?_nil plain, List.length_append, ← Nat.add_assoc]
  rfl

/-- Where an entry has its record, its contents are found. -/
theorem packed?_record (there : Holds source offset entry.record) (fits : entry.Fits) :
    packed? source (entry.listed offset) = some entry.packed := by
  rw [record_eq] at there
  have numbers := there.left
  have kind : number? source offset 4 = some Record.member.magic :=
    numbers.number? 0 rfl (by decide)
  have nameSize : number? source (offset + 26) 2 = some (Text.utf8 entry.name.toList).length :=
    numbers.number? 9 rfl fits.name
  have extraSize : number? source (offset + 28) 2 = some 0 := numbers.number? 10 rfl (by decide)
  have contents :
      range source (offset + 30 + (Text.utf8 entry.name.toList).length) _ = entry.packed :=
    there.right.right.range
  simp only [packed?, listed, Record.isAt, kind, nameSize, extraSize, Record.size,
    Option.bind_eq_bind, Option.bind_some, Nat.add_zero, contents]
  rfl

theorem length_record_pos (entry : Entry) : 0 < entry.record.length := by
  have header : (fields ((4, Record.member.magic) :: entry.described)).length = 30 := rfl
  rw [record_eq, List.length_append, header]
  omega

theorem isStored_member (entry : Entry) : entry.member.isStored = entry.stored := by
  rw [Member.isStored, member, method]
  cases entry.stored <;> rfl

theorem check_member (entry : Entry) : entry.member.check = .ok () := by
  have known : entry.method = 0 ∨ entry.method = 8 := by
    rw [method]
    cases entry.stored
    · exact .inr rfl
    · exact .inl rfl
  exact require_of ⟨rfl, rfl, known⟩

/-- What was packed is what the member holds. -/
theorem contents_member (entry : Entry) : entry.member.contents = .ok entry.bytes := by
  have unpacked : (if entry.member.isStored then entry.member.packed
      else entry.member.packed.bind Deflate.unpack) = some entry.bytes := by
    rw [isStored_member, member, Option.bind_some, packed]
    cases entry.stored with
    | true => rfl
    | false => exact Deflate.unpack_pack entry.bytes
  rw [Member.contents]
  simp only [unpacked]
  exact bind_of_ok (require_of rfl)

/-- Opening the member of an entry gives its name and its contents. -/
theorem opened_member (entry : Container.Entry) :
    (ofEntry entry).member.opened = .ok entry.member := by
  rw [Member.opened, bind_of_ok (ofEntry entry).check_member, contents_member]
  rfl

/-- A member is the entry that it was made of. -/
theorem entry_member (entry : Entry) : entry.member.entry = .ok entry := by
  rw [Member.entry, bind_of_ok entry.check_member, bind_of_ok entry.contents_member, isStored_member]
  rfl

end Entry

section Listings

/-- What the directory lists of entries the first of which has its record at an offset. -/
def listed (offset : Nat) : List Entry → List Listing
  | [] => []
  | entry :: rest => entry.listed offset :: listed (offset + entry.record.length) rest

theorem map_name_listed (offset : Nat) (entries : List Entry) :
    (listed offset entries).map Listing.name = entries.map Entry.name := by
  induction entries generalizing offset with
  | nil => rfl
  | cons entry rest ih =>
    rw [listed, List.map_cons, List.map_cons, ih]
    rfl

/-- A directory is read entry by entry. -/
theorem listingsFrom?_directory {directory : Directory} (unshifted : directory.shift = 0)
    (there : Holds source position (Zip.directory offset entries))
    (fit : ∀ entry ∈ entries, entry.Fits)
    (before : offset + (entries.flatMap Entry.record).length ≤ directory.start)
    (small : directory.start ≤ Bytes.capacity 4) :
    directory.listingsFrom? source entries.length position = some (listed offset entries) := by
  induction entries generalizing position offset with
  | nil => rfl
  | cons entry rest ih =>
    obtain ⟨first, others⟩ := List.forall_mem_cons.mp fit
    have positive := entry.length_record_pos
    rw [List.flatMap_cons, List.length_append] at before
    rw [Zip.directory] at there
    have read := Entry.at?_listing there.left first (by omega)
    have more := ih there.right others (by omega)
    have inside : ¬ directory.start ≤ offset := by omega
    rw [List.length_cons, Directory.listingsFrom?, read]
    simp only [Option.bind_eq_bind, Option.bind_some, unshifted, Nat.add_zero,
      show (entry.listed offset).offset = offset from rfl, if_neg inside, more]
    rfl

theorem enter_fresh {listing : Listing} {listings : List Listing}
    (fresh : listing.name ∉ listings.map Listing.name) :
    Directory.enter listing listings = listings ++ [listing] := by
  induction listings with
  | nil => rfl
  | cons other rest ih =>
    obtain ⟨differ, freshToo⟩ := not_or.mp (mt List.mem_cons.mpr fresh)
    rw [Directory.enter, if_neg fun same => differ same.symm, ih freshToo, List.cons_append]

/-- Listings with different names are kept in their order. -/
theorem foldl_enter {entered listings : List Listing}
    (distinct : ((entered ++ listings).map Listing.name).Nodup) :
    listings.foldl (fun entered listing => Directory.enter listing entered) entered =
      entered ++ listings := by
  induction listings generalizing entered with
  | nil => exact (List.append_nil _).symm
  | cons listing rest ih =>
    have fresh : listing.name ∉ entered.map Listing.name := by
      rw [List.map_append] at distinct
      exact fun there => List.disjoint_of_nodup_append distinct there List.mem_cons_self
    rw [List.foldl_cons, enter_fresh fresh, ih, List.append_assoc, List.singleton_append]
    rwa [List.append_assoc, List.singleton_append]

end Listings

section Ending

/-- The numbers of an end record without a comment. -/
def closing (count size offset : Nat) : List (Nat × Nat) :=
  [(4, Record.ending.magic), (2, 0), (2, 0), (2, count), (2, count), (4, size), (4, offset), (2, 0)]

variable {count : Nat} {places : List Nat} {listings : List Listing}

theorem Ending.at?_closing (there : Holds source position (fields (closing count size offset)))
    (counted : count < Bytes.capacity 2) (small : offset < Bytes.capacity 4) :
    Ending.at? source position = some ⟨position, 0, 0, count, count, offset⟩ := by
  have kind : number? source position 4 = some Record.ending.magic :=
    there.number? 0 rfl (by decide)
  have disk : number? source (position + 4) 2 = some 0 := there.number? 1 rfl (by decide)
  have directoryDisk : number? source (position + 6) 2 = some 0 := there.number? 2 rfl (by decide)
  have diskCount : number? source (position + 8) 2 = some count := there.number? 3 rfl counted
  have all : number? source (position + 10) 2 = some count := there.number? 4 rfl counted
  have start : number? source (position + 16) 4 = some offset := there.number? 6 rfl small
  have commentSize : number? source (position + 20) 2 = some 0 := there.number? 7 rfl (by decide)
  have inside : position + 22 + 0 ≤ source.size := there.le_size
  simp only [Ending.at?, Record.isAt, kind, disk, directoryDisk, diskCount, all, start, commentSize,
    Record.size, Option.bind_eq_bind, Option.bind_some]
  rw [if_neg (by decide)]
  exact if_pos inside

/-- No end record begins where it would not fit in. -/
theorem Ending.at?_beyond (beyond : source.size < position + 22) :
    Ending.at? source position = none := by
  have missing : number? source (position + 20) 2 = none := by
    rw [number?, bytes?, if_neg (by omega)]
    rfl
  rw [Option.eq_none_iff_forall_ne_some]
  intro ending found
  simp [Ending.at?, missing] at found

/-- The end record at the very end is the first one that is looked at. -/
theorem Ending.listingsBefore?_last (last : source.size = position + 22)
    (found : Ending.listingsAt? source places position = some listings) :
    Ending.listingsBefore? source places source.size = some listings := by
  have walk (more : Nat) (within : more ≤ 21) :
      Ending.listingsBefore? source places (position + 1 + more) = some listings := by
    induction more with
    | zero => rw [Nat.add_zero, Ending.listingsBefore?, found]
    | succ more ih =>
      have beyond : Ending.listingsAt? source places (position + 1 + more) = none := by
        rw [Ending.listingsAt?, Ending.at?_beyond (by omega)]
        rfl
      rw [← Nat.add_assoc, Ending.listingsBefore?, beyond]
      exact ih (by omega)
  rw [last]
  exact walk 21 (Nat.le_refl _)

/-- A directory starts where the first of its places is. -/
theorem find?_offsets (kind : Record) (here : kind.isAt source offset = true)
    (before : offset < position) (inside : offset < source.size) :
    (kind.offsets source).find? (fun place => offset ≤ place && place < position) = some offset := by
  rw [Record.offsets, List.find?_filter, List.find?_range_eq_some]
  refine ⟨?_, List.mem_range.mpr inside, fun earlier less => ?_⟩
  · simp [here, before]
  · have late : ¬ offset ≤ earlier := by omega
    simp [late]

/-- The directory of an end record with room for its numbers starts at the first entry from the
offset in the record on. -/
theorem Ending.directory?_own (room : count < 0xFFFF) (small : offset < largeMark)
    (starts : count = 0 ∧ position = offset ∨
      count ≠ 0 ∧ Record.directoryEntry.isAt source offset = true ∧ offset < position ∧
        position ≤ source.size) :
    (⟨position, 0, 0, count, count, offset⟩ : Ending).directory? source
      (Record.directoryEntry.offsets source) = some ⟨offset, count, 0⟩ := by
  have roomy : (⟨position, 0, 0, count, count, offset⟩ : Ending).isFull = false := by
    simp [isFull, Nat.ne_of_lt room, Nat.ne_of_lt small]
  have own : (⟨position, 0, 0, count, count, offset⟩ : Ending).ownDirectory?
      (Record.directoryEntry.offsets source) = some ⟨offset, count, 0⟩ := by
    rcases starts with ⟨rfl, rfl⟩ | ⟨several, here, before, inside⟩
    · simp [ownDirectory?]
    · have found := find?_offsets .directoryEntry here before (Nat.lt_of_lt_of_le before inside)
      simp [ownDirectory?, several, found]
  rw [directory?, roomy]
  exact own

end Ending

section Writing

variable {container : Bytes}

theorem checkNames_eq_ok_iff : checkNames entries = .ok () ↔ (entries.map Entry.name).Nodup := by
  induction entries with
  | nil => simp [checkNames]
  | cons entry rest ih =>
    rw [checkNames, bind_eq_ok_iff, exists_unit_iff, require_eq_ok_iff, ih, List.map_cons,
      List.nodup_cons]

/-- A container is written for entries whose names differ and whose numbers have room. -/
theorem encode_eq_ok_iff :
    encode entries = .ok container ↔
      (entries.map Entry.name).Nodup ∧
        (entries.length ≤ 0xFFFF ∧
          (entries.flatMap Entry.record).length + (directory 0 entries).length ≤ 0xFFFFFFFF ∧
          ∀ entry ∈ entries, (Text.utf8 entry.name.toList).length ≤ 0xFFFF) ∧
        entries.flatMap Entry.record ++ directory 0 entries ++
          fields (closing entries.length (directory 0 entries).length
            (entries.flatMap Entry.record).length) = container := by
  rw [encode]
  simp only [bind_eq_ok_iff, exists_unit_iff, checkNames_eq_ok_iff, require_eq_ok_iff, pure_eq_ok_iff]
  rfl

theorem Entry.length_packed_le (entry : Entry) : entry.packed.length ≤ entry.record.length := by
  rw [Entry.record, List.length_append]
  omega

/-- The members are where the directory says. -/
theorem map_listed (there : Holds source offset (entries.flatMap Entry.record))
    (fit : ∀ entry ∈ entries, entry.Fits) :
    (listed offset entries).map (fun listing =>
      (⟨listing.name, listing.flags % 2 = 1 || listing.ciphered, listing.method, listing.crc,
        packed? source listing⟩ : Member)) = entries.map Entry.member := by
  induction entries generalizing offset with
  | nil => rfl
  | cons entry rest ih =>
    obtain ⟨first, others⟩ := List.forall_mem_cons.mp fit
    rw [List.flatMap_cons] at there
    have plain : (decide ((entry.listed offset).flags % 2 = 1) || (entry.listed offset).ciphered) =
        false := by
      simp [Entry.listed]
    rw [listed, List.map_cons, List.map_cons, ih there.right others, plain,
      Entry.packed?_record there.left first]
    rfl

/-- How a source holds entries that were written: their records first, then the directory, then the
end record. -/
structure Laid (source : Array UInt8) (entries : List Entry) : Prop where
  distinct : (entries.map Entry.name).Nodup
  fit : ∀ entry ∈ entries, entry.Fits
  small : (entries.flatMap Entry.record).length + (directory 0 entries).length ≤ largeMark
  records : Holds source 0 (entries.flatMap Entry.record)
  listing : Holds source (entries.flatMap Entry.record).length (directory 0 entries)
  ending : Holds source ((entries.flatMap Entry.record).length + (directory 0 entries).length)
    (fields (closing entries.length (directory 0 entries).length
      (entries.flatMap Entry.record).length))
  size : source.size =
    (entries.flatMap Entry.record).length + (directory 0 entries).length + Record.ending.size

theorem laid_of_encode (ran : encode entries = .ok container) : Laid container.toArray entries := by
  obtain ⟨distinct, ⟨-, small, names⟩, rfl⟩ := encode_eq_ok_iff.mp ran
  have fit : ∀ entry ∈ entries, entry.Fits := by
    intro entry member
    have packed := entry.length_packed_le
    have inside : entry.packed.length ≤ 0xFFFFFFFF := by
      obtain ⟨before, after, rfl⟩ := List.append_of_mem member
      rw [List.flatMap_append, List.flatMap_cons, List.length_append, List.length_append] at small
      omega
    exact ⟨Nat.lt_succ_of_le (names entry member), Nat.lt_succ_of_le inside⟩
  refine ⟨distinct, fit, small, ⟨[], _, List.append_assoc _ _ _, rfl⟩,
    ⟨_, _, List.append_assoc _ _ _, rfl⟩, ⟨_, [], ?_, List.length_append⟩, ?_⟩
  · rw [List.append_nil]
  · rw [List.size_toArray, List.length_append, List.length_append]
    rfl

namespace Laid

/-- The directory is found behind the records. -/
theorem directory? (laid : Laid source entries) (room : entries.length < 0xFFFF) :
    (⟨(entries.flatMap Entry.record).length + (directory 0 entries).length, 0, 0, entries.length,
      entries.length, (entries.flatMap Entry.record).length⟩ : Ending).directory? source
        (Record.directoryEntry.offsets source) =
      some ⟨(entries.flatMap Entry.record).length, entries.length, 0⟩ := by
  have small := laid.small
  have size := laid.size
  have listing := laid.listing
  cases entries with
  | nil => exact Ending.directory?_own room (by decide) (.inl ⟨rfl, rfl⟩)
  | cons entry rest =>
    have positive : 0 < (directory 0 (entry :: rest)).length := by
      rw [directory, List.length_append]
      exact Nat.add_pos_left (entry.length_listing_pos 0) _
    refine Ending.directory?_own room (by omega) (.inr ⟨Nat.succ_ne_zero _, ?_, ?_, ?_⟩)
    · rw [directory] at listing
      exact Entry.isAt_listing listing.left
    · exact Nat.lt_add_of_pos_right positive
    · omega

theorem offset_lt (laid : Laid source entries) :
    (entries.flatMap Entry.record).length < Bytes.capacity 4 :=
  Nat.lt_succ_of_le (Nat.le_trans (Nat.le_add_right _ _) laid.small)

/-- The directory lists the entries. -/
theorem listings? (laid : Laid source entries) (room : entries.length < 0xFFFF) :
    listings? source = some (listed 0 entries) := by
  have counted : entries.length < Bytes.capacity 2 := Nat.lt_trans room (by decide)
  have read : Directory.listingsFrom? ⟨_, entries.length, 0⟩ source entries.length _ = _ :=
    listingsFrom?_directory rfl laid.listing laid.fit (Nat.le_of_eq (Nat.zero_add _))
      (Nat.le_of_lt laid.offset_lt)
  have kept : _ = [] ++ listed 0 entries := foldl_enter (by
    rw [List.nil_append, map_name_listed]
    exact laid.distinct)
  refine Ending.listingsBefore?_last laid.size ?_
  rw [Ending.listingsAt?, Ending.at?_closing laid.ending counted laid.offset_lt,
    Option.bind_eq_bind, Option.bind_some, laid.directory? room, Option.bind_eq_bind,
    Option.bind_some, Directory.listings?, read, Option.map_some, kept, List.nil_append]

/-- The members are the entries. -/
theorem members {container : Bytes} (laid : Laid container.toArray entries)
    (room : entries.length < 0xFFFF) : members container = .ok (entries.map Entry.member) := by
  rw [Zip.members, laid.listings? room]
  exact congrArg Except.ok (map_listed laid.records laid.fit)

end Laid

/-- The entries of a container that was written are read from it, as long as their number does not
mark a larger end record. -/
theorem decode_encode (ran : encode entries = .ok container) (room : entries.length < 0xFFFF) :
    decode container = .ok entries := by
  have opened : (entries.map Entry.member).mapM Member.entry = .ok entries :=
    mapM_eq_ok_iff.mpr (List.forall₂_map_left_iff.mpr
      (List.forall₂_same.mpr fun entry _ => entry.entry_member))
  rw [decode, bind_of_ok ((laid_of_encode ran).members room), opened]

/-- As a format of containers, ZIP gives back what it can write, as long as the number of entries
does not mark a larger end record. -/
theorem restores {entries : List Container.Entry} (room : entries.length < 0xFFFF) :
    Container.Restores entries := by
  intro container ran
  have encoded : encode (entries.map Entry.ofEntry) = .ok container :=
    Edit.change_eq_ok_iff.mp ran
  have listed : Zip.members container = .ok ((entries.map Entry.ofEntry).map Entry.member) :=
    (laid_of_encode encoded).members (by rwa [List.length_map])
  change (Zip.members container).map _ = _
  rw [map_eq_ok_iff]
  refine ⟨_, listed, ?_⟩
  rw [List.map_map, List.map_map]
  exact List.map_congr_left fun entry _ => Entry.opened_member entry

end Writing

end SecureBoot.Zip
