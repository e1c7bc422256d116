import SecureBoot.Archive
import SecureBoot.Proofs.Disk
import SecureBoot.Proofs.Manifest
import SecureBoot.Proofs.Zip

/-!
Archives that are saved and loaded again, in any format that gives back what was put into it.
Whatever a container gives back is divided into manifests and files, directories left aside; so an
archive comes back as it was just if each of its names is that of a file, can be listed in the
manifest and is not taken for one, and each of its images is recognised in its own bytes. Saving
checks none of this beyond the name of its own manifest.
-/

namespace SecureBoot.Archive

variable {archive loaded : Archive} {path name : String} {level : CompressionLevel}
  {disk saved : Files.Disk} {container : Bytes} {contents : List Container.Entry}

section Dividing

/-- The contents of the manifests among entries. -/
def manifestsOf (contents : List Container.Entry) : List Bytes :=
  (contents.filter fun entry =>
    !Container.isDirectoryName entry.name && Manifest.isManifestName entry.name).map
      Container.Entry.bytes

/-- The files among entries. -/
def filesOf (contents : List Container.Entry) : List (String × Bytes) :=
  (contents.filter fun entry =>
    !Container.isDirectoryName entry.name && !Manifest.isManifestName entry.name).map fun entry =>
      (entry.name, entry.bytes)

variable {entry : Container.Entry}

theorem divided_directory (directory : Container.isDirectoryName entry.name = true) :
    manifestsOf (entry :: contents) = manifestsOf contents ∧
      filesOf (entry :: contents) = filesOf contents := by
  simp [manifestsOf, filesOf, directory]

theorem divided_manifest (plain : Container.isDirectoryName entry.name = false)
    (reserved : Manifest.isManifestName entry.name = true) :
    manifestsOf (entry :: contents) = entry.bytes :: manifestsOf contents ∧
      filesOf (entry :: contents) = filesOf contents := by
  simp [manifestsOf, filesOf, plain, reserved]

theorem divided_file (plain : Container.isDirectoryName entry.name = false)
    (ordinary : Manifest.isManifestName entry.name = false) :
    manifestsOf (entry :: contents) = manifestsOf contents ∧
      filesOf (entry :: contents) = (entry.name, entry.bytes) :: filesOf contents := by
  simp [manifestsOf, filesOf, plain, ordinary]

/-- Entries that came back are divided by their names, and there must not be two manifests. -/
theorem divide_eq_ok_iff {manifest found : Option Bytes} {files divided : List (String × Bytes)} :
    divide path manifest files (contents.map fun entry => .ok entry.member) =
        .ok (found, divided) ↔
      found.toList = manifest.toList ++ manifestsOf contents ∧
        divided = files.reverse ++ filesOf contents := by
  induction contents generalizing manifest files with
  | nil =>
    have listed : found.toList = manifest.toList ↔ manifest = found := by
      cases found <;> cases manifest <;> simp [eq_comm]
    simp [divide, manifestsOf, filesOf, listed, eq_comm]
  | cons entry contents ih =>
    rw [List.map_cons, divide, bind_of_ok rfl, Container.Entry.member]
    cases directory : Container.isDirectoryName entry.name with
    | true =>
      obtain ⟨manifests, kept⟩ := divided_directory directory
      rw [manifests, kept, if_pos rfl]
      exact ih
    | false =>
      rw [if_neg Bool.false_ne_true, bind_of_ok rfl]
      cases reserved : Manifest.isManifestName entry.name with
      | true =>
        obtain ⟨manifests, kept⟩ := divided_manifest directory reserved
        rw [manifests, kept, if_pos rfl]
        cases manifest with
        | none =>
          rw [bind_of_ok (require_of rfl), ih]
          rfl
        | some first =>
          constructor
          · intro ran
            obtain ⟨_, single, -⟩ := bind_eq_ok_iff.mp ran
            cases require_eq_ok_iff.mp single
          · rintro ⟨two, -⟩
            cases found <;> simp at two
      | false =>
        obtain ⟨manifests, kept⟩ := divided_file directory reserved
        rw [manifests, kept, if_neg Bool.false_ne_true, ih, List.reverse_cons, List.append_assoc,
          List.singleton_append]

/-- Loading takes a container apart whose files are the ones that its only manifest lists, and
recognises them. -/
theorem load_eq_ok_iff [Container] (found : disk.find? path = some (.file container))
    (read : Container.members container = .ok (contents.map fun entry => .ok entry.member)) :
    load disk path = .ok loaded ↔
      ∃ manifest, manifestsOf contents = [manifest] ∧
        Manifest.verify (Text.chars manifest) (filesOf contents) = .ok () ∧
        recogniseFiles empty (filesOf contents) = .ok loaded := by
  have there : containerAt disk path = .ok container := by
    rw [containerAt, found]
  rw [load, bind_of_ok there, bind_of_ok read, bind_eq_ok_iff]
  constructor
  · rintro ⟨⟨manifest, files⟩, divided, ran⟩
    obtain ⟨manifests, rfl⟩ := divide_eq_ok_iff.mp divided
    rw [Option.toList_none, List.nil_append] at manifests
    rw [List.reverse_nil, List.nil_append] at ran
    cases manifest with
    | none => cases ran
    | some manifest =>
      obtain ⟨⟨⟩, verified, recognised⟩ := bind_eq_ok_iff.mp ran
      exact ⟨manifest, manifests.symm, verified, recognised⟩
  · rintro ⟨manifest, manifests, verified, recognised⟩
    refine ⟨(some manifest, filesOf contents), ?_, ?_⟩
    · exact divide_eq_ok_iff.mpr ⟨manifests.symm, rfl⟩
    · exact bind_eq_ok_iff.mpr ⟨(), verified, recognised⟩

end Dividing

section Recognising

/-- What an archive shows of its images: their names and bytes, in order. -/
def files (archive : Archive) : List (String × Bytes) :=
  archive.entries.map fun (name, image) => (name, image.toBytes)

/-- What a file is recognised as, under its name. -/
def Recognised (file : String × Bytes) (entry : String × Image) : Prop :=
  entry.1 = file.1 ∧ Image.ofBytes file.2 = .ok entry.2

theorem insertInto_fresh {image : Image} {entries : List (String × Image)}
    (fresh : name ∉ entries.map Prod.fst) :
    insertInto name image entries = entries ++ [(name, image)] := by
  induction entries with
  | nil => rfl
  | cons entry rest ih =>
    obtain ⟨differ, freshToo⟩ := not_or.mp (mt List.mem_cons.mpr fresh)
    obtain ⟨other, old⟩ := entry
    rw [insertInto, if_neg fun same => differ same.symm, ih freshToo, List.cons_append]

/-- Files with names of their own are added in their order. -/
theorem recogniseFiles_eq_ok_iff {files : List (String × Bytes)}
    (distinct : (archive.names ++ files.map Prod.fst).Nodup) :
    recogniseFiles archive files = .ok loaded ↔
      ∃ entries, List.Forall₂ Recognised files entries ∧
        loaded.entries = archive.entries ++ entries := by
  induction files generalizing archive with
  | nil =>
    obtain ⟨entries, _⟩ := archive
    obtain ⟨others, _⟩ := loaded
    simp [recogniseFiles, eq_comm]
  | cons file rest ih =>
    obtain ⟨name, bytes⟩ := file
    have fresh : name ∉ archive.entries.map Prod.fst :=
      fun there => List.disjoint_of_nodup_append distinct there List.mem_cons_self
    have inserted (image : Image) :
        (archive.insert name image).entries = archive.entries ++ [(name, image)] :=
      insertInto_fresh fresh
    have moved (image : Image) :
        ((archive.insert name image).names ++ rest.map Prod.fst).Nodup := by
      rw [names, inserted, List.map_append, List.append_assoc]
      exact distinct
    rw [recogniseFiles, bind_eq_ok_iff]
    simp only [ih (moved _), inserted, List.forall₂_cons_left_iff]
    constructor
    · rintro ⟨image, here, entries, others, same⟩
      refine ⟨(name, image) :: entries, ⟨_, entries, ⟨rfl, here⟩, others, rfl⟩, ?_⟩
      rw [same, List.append_assoc, List.singleton_append]
    · rintro ⟨_, ⟨⟨_, image⟩, entries, ⟨rfl, here⟩, others, rfl⟩, same⟩
      refine ⟨image, here, entries, others, ?_⟩
      rw [same, List.append_assoc, List.singleton_append]

theorem recogniseFiles_empty_iff {files : List (String × Bytes)}
    (distinct : (files.map Prod.fst).Nodup) :
    recogniseFiles empty files = .ok loaded ↔ List.Forall₂ Recognised files loaded.entries := by
  have apart : (empty.names ++ files.map Prod.fst).Nodup := distinct
  rw [recogniseFiles_eq_ok_iff apart]
  constructor
  · rintro ⟨entries, recognised, same⟩
    rwa [same]
  · intro recognised
    exact ⟨loaded.entries, recognised, rfl⟩

/-- The names of files are those of what they are recognised as. -/
theorem map_fst_of_recognised {files : List (String × Bytes)} {entries : List (String × Image)}
    (recognised : List.Forall₂ Recognised files entries) :
    entries.map Prod.fst = files.map Prod.fst := by
  induction recognised with
  | nil => rfl
  | cons here _ ih => exact congrArg₂ List.cons here.1 ih

/-- Bytes that are recognised as an image with the same bytes. -/
def Reread (bytes : Bytes) : Prop :=
  ∃ image, Image.ofBytes bytes = .ok image ∧ image.toBytes = bytes

/-- Files come back by being recognised just if each of them is recognised as what it was. -/
theorem recognised_same_iff {files : List (String × Bytes)} :
    (∃ entries : List (String × Image), List.Forall₂ Recognised files entries ∧
        entries.map (fun entry => (entry.1, entry.2.toBytes)) = files) ↔
      ∀ file ∈ files, Reread file.2 := by
  induction files with
  | nil => simp
  | cons file rest ih =>
    rw [List.forall_mem_cons, ← ih]
    simp only [List.forall₂_cons_left_iff]
    constructor
    · rintro ⟨_, ⟨⟨_, image⟩, entries, ⟨rfl, here⟩, others, rfl⟩, same⟩
      obtain ⟨first, more⟩ := List.cons.inj same
      exact ⟨⟨image, here, congrArg Prod.snd first⟩, entries, others, more⟩
    · rintro ⟨⟨image, here, same⟩, entries, others, more⟩
      refine ⟨(file.1, image) :: entries, ⟨_, entries, ⟨rfl, here⟩, others, rfl⟩, ?_⟩
      have first : (file.1, image.toBytes) = file := congrArg (Prod.mk file.1) same
      exact congrArg₂ List.cons first more

end Recognising

section Saving

/-- A name under which an image is saved as a file that the manifest lists and that is no manifest
itself. -/
structure NameKept (name : String) : Prop extends Manifest.Lists name where
  file : Container.isDirectoryName name = false
  ordinary : Manifest.isManifestName name = false

theorem toList_manifest (archive : Archive) :
    archive.manifest.toList = Manifest.written archive.files := by
  have line (entry : String × Image) :
      (Manifest.renderLine entry.1 (Fragment.sha256Sum entry.2)).toList =
        Manifest.bodyOf (entry.1, entry.2.toBytes) ++ ['\n'] := by
    rw [Fragment.sha256Sum, Fragment.sha256]
    exact Manifest.toList_renderLine entry.1 entry.2.toBytes
  rw [manifest, String.toList_join, Manifest.written, files, List.flatMap_map, List.flatMap_map]
  exact List.flatMap_congr fun entry _ => line entry

/-- What the end of a manifest's name says of it. -/
theorem manifest_named (stem : String) :
    Container.isDirectoryName (stem ++ Manifest.nameEnd) = false ∧
      Manifest.isManifestName (stem ++ Manifest.nameEnd) = true := by
  constructor
  · rw [Container.isDirectoryName, String.toList_append, List.getLast?_append_of_ne_nil _ (by decide)]
    rfl
  · rw [Manifest.isManifestName, String.toList_append, List.isSuffixOf_iff_suffix]
    exact List.suffix_append _ _

theorem manifestName_eq_ok (named : archive.manifestName path = .ok name) :
    ∃ stem, name = stem ++ Manifest.nameEnd := by
  rw [manifestName] at named
  cases last : Files.stem? path with
  | none => simp [last] at named
  | some stem =>
    simp only [last, bind_eq_ok_iff, pure_eq_ok_iff] at named
    obtain ⟨_, -, rfl⟩ := named
    exact ⟨stem, rfl⟩

/-- An archive that was saved is in the file as the container that was written for it. -/
theorem exists_of_save [Container] (ran : archive.save path level disk = .ok () saved) :
    ∃ name container, archive.manifestName path = .ok name ∧
      Container.write (archive.members name level) [] = .ok () container ∧
      saved.find? path = some (.file container) := by
  simp only [save, Edit.bind_eq_ok_iff, Edit.ask_eq_ok_iff] at ran
  obtain ⟨_, _, -, name, _, ⟨named, -⟩, _, _, -, wrote⟩ := ran
  obtain ⟨container, written, found⟩ := Files.Disk.find?_of_writeBy wrote
  exact ⟨name, container, named, written, found⟩

theorem map_fst_files (archive : Archive) : archive.files.map Prod.fst = archive.names := by
  rw [files, List.map_map]
  rfl

theorem files_nodup (archive : Archive) : (archive.files.map Prod.fst).Nodup := by
  rw [map_fst_files]
  exact archive.distinct

theorem forall_files_iff {good : String × Bytes → Prop} :
    (∀ file ∈ archive.files, good file) ↔
      ∀ entry ∈ archive.entries, good (entry.1, entry.2.toBytes) := by
  rw [files, List.forall_mem_map]

/-- The files of the images whose names are neither those of directories nor those of manifests. -/
def plainFiles (archive : Archive) : List (String × Bytes) :=
  archive.files.filter fun file =>
    !Container.isDirectoryName file.1 && !Manifest.isManifestName file.1

theorem plainFiles_eq_iff :
    archive.plainFiles = archive.files ↔ ∀ entry ∈ archive.entries,
      Container.isDirectoryName entry.1 = false ∧ Manifest.isManifestName entry.1 = false := by
  rw [plainFiles, List.filter_eq_self, forall_files_iff]
  simp

/-- The files among the members are those of the images that have the name of a file. -/
theorem filesOf_members (named : archive.manifestName path = .ok name) :
    filesOf (archive.members name level) = archive.plainFiles := by
  obtain ⟨stem, rfl⟩ := manifestName_eq_ok named
  obtain ⟨-, reserved⟩ := manifest_named stem
  rw [filesOf, members, List.filter_append, List.filter_map,
    List.filter_cons_of_neg (by simp [reserved]), List.filter_nil, List.append_nil, List.map_map,
    plainFiles, files, List.filter_map]
  rfl

/-- The only manifest is that of the archive if no image has the name of a manifest. -/
theorem manifestsOf_members_iff {bytes : Bytes} (named : archive.manifestName path = .ok name) :
    manifestsOf (archive.members name level) = [bytes] ↔
      (∀ entry ∈ archive.entries,
        Container.isDirectoryName entry.1 = false → Manifest.isManifestName entry.1 = false) ∧
          Text.utf8 archive.manifest.toList = bytes := by
  obtain ⟨stem, rfl⟩ := manifestName_eq_ok named
  obtain ⟨plain, reserved⟩ := manifest_named stem
  have split : manifestsOf (archive.members (stem ++ Manifest.nameEnd) level) =
      manifestsOf (archive.entries.map fun (name, image) =>
        ⟨name, image.toBytes, level.packing⟩) ++ [Text.utf8 archive.manifest.toList] := by
    rw [manifestsOf, members, List.filter_append,
      List.filter_cons_of_pos (by simp [plain, reserved]), List.filter_nil, List.map_append]
    rfl
  have only (front : List Bytes) (last : Bytes) :
      front ++ [last] = [bytes] ↔ front = [] ∧ last = bytes := by
    cases front <;> simp
  rw [split, only, manifestsOf, List.map_eq_nil_iff, List.filter_eq_nil_iff, List.forall_mem_map]
  simp

/-- What is loaded of an archive that was saved: its plain files if they are all that the manifest
lists, as they are recognised, and nothing if an image has the name of a manifest. -/
theorem load_saved_iff [Container] (ran : archive.save path level disk = .ok () saved)
    (restores : ∀ name, archive.manifestName path = .ok name →
      Container.Restores (archive.members name level)) :
    load saved path = .ok loaded ↔
      (∀ entry ∈ archive.entries,
        Container.isDirectoryName entry.1 = false → Manifest.isManifestName entry.1 = false) ∧
      Manifest.verify (Manifest.written archive.files) archive.plainFiles = .ok () ∧
      List.Forall₂ Recognised archive.plainFiles loaded.entries := by
  obtain ⟨name, container, named, written, found⟩ := exists_of_save ran
  have apart : (archive.plainFiles.map Prod.fst).Nodup :=
    archive.files_nodup.sublist (List.filter_sublist.map _)
  simp only [load_eq_ok_iff found (restores name named container written), manifestsOf_members_iff named,
    filesOf_members named, recogniseFiles_empty_iff apart]
  constructor
  · rintro ⟨_, ⟨unreserved, rfl⟩, verified, recognised⟩
    rw [Text.chars_utf8, toList_manifest] at verified
    exact ⟨unreserved, verified, recognised⟩
  · rintro ⟨unreserved, verified, recognised⟩
    rw [← toList_manifest, ← Text.chars_utf8 archive.manifest.toList] at verified
    exact ⟨_, ⟨unreserved, rfl⟩, verified, recognised⟩

/-- If as many files come back as there were, none was left aside. -/
theorem plainFiles_eq_of_same (recognised : List.Forall₂ Recognised archive.plainFiles loaded.entries)
    (same : loaded.files = archive.files) : archive.plainFiles = archive.files := by
  refine List.filter_sublist.eq_of_length ?_
  rw [← plainFiles, recognised.length_eq, ← same]
  exact (List.length_map _).symm

/-- An archive that was saved comes back with its names in their order and the bytes of its images,
just if each of its names is kept and each of its images is recognised in its own bytes. -/
theorem save_load_iff [Container] (ran : archive.save path level disk = .ok () saved)
    (restores : ∀ name, archive.manifestName path = .ok name →
      Container.Restores (archive.members name level)) :
    (∃ loaded, load saved path = .ok loaded ∧ loaded.files = archive.files) ↔
      ∀ entry ∈ archive.entries, NameKept entry.1 ∧ Reread entry.2.toBytes := by
  have verified_iff := Manifest.verify_written_iff archive.files_nodup
  constructor
  · rintro ⟨loaded, came, same⟩
    obtain ⟨-, verified, recognised⟩ := (load_saved_iff ran restores).mp came
    have plain := plainFiles_eq_of_same recognised same
    rw [plain] at verified recognised
    have listed := verified_iff.mp verified
    have reread := recognised_same_iff.mp ⟨loaded.entries, recognised, same⟩
    rw [forall_files_iff] at listed reread
    intro entry member
    obtain ⟨isFile, ordinary⟩ := plainFiles_eq_iff.mp plain entry member
    exact ⟨⟨listed entry member, isFile, ordinary⟩, reread entry member⟩
  · intro fine
    have ordinary (entry) (member : entry ∈ archive.entries) := (fine entry member).1.ordinary
    have plain := plainFiles_eq_iff.mpr fun entry member =>
      ⟨(fine entry member).1.file, ordinary entry member⟩
    have listed : ∀ file ∈ archive.files, Manifest.Lists file.1 :=
      forall_files_iff.mpr fun entry member => (fine entry member).1.toLists
    have reread : ∀ file ∈ archive.files, Reread file.2 :=
      forall_files_iff.mpr fun entry member => (fine entry member).2
    obtain ⟨entries, recognised, same⟩ := recognised_same_iff.mpr reread
    have apart : (entries.map Prod.fst).Nodup := by
      rw [map_fst_of_recognised recognised]
      exact archive.files_nodup
    refine ⟨⟨entries, apart⟩, (load_saved_iff ran restores).mpr ⟨?_, ?_, ?_⟩, same⟩
    · intro entry member _
      exact ordinary entry member
    · rw [plain]
      exact verified_iff.mpr listed
    · rwa [plain]

/-- Unless there are as many images as mark a larger end record, ZIP gives back what was put into
it. -/
theorem restored_of_few (few : archive.length + 1 < 0xFFFF) (name : String) :
    Container.Restores (archive.members name level) := by
  refine Zip.restores ?_
  rw [members, List.length_append, List.length_map]
  exact few

/-- An archive that is saved when the call is evaluated. -/
theorem exists_saved [Container]
    (stores : (Edit.result (archive.save path level) disk).toOption.isSome = true) :
    ∃ saved, archive.save path level disk = .ok () saved := by
  cases ran : archive.save path level disk with
  | ok answer saved => exact ⟨saved, rfl⟩
  | error failure left => simp [Edit.result, ran, Except.toOption] at stores

/-- An archive of one file of no known kind. -/
def oneFile : Archive :=
  empty.insert "a.bin" (.raw { Buffer.empty none with bytes := [1, 2, 3, 4] })

theorem save_load_iff_oneFile :
    ∃ saved, oneFile.save "a.zip" .default (Files.Disk.empty []) = .ok () saved ∧
      ∃ loaded, load saved "a.zip" = .ok loaded ∧ loaded.files = oneFile.files := by
  obtain ⟨saved, ran⟩ : ∃ saved,
      oneFile.save "a.zip" .default (Files.Disk.empty []) = .ok () saved :=
    exists_saved (by decide +kernel)
  have few : oneFile.length + 1 < 0xFFFF := by decide
  refine ⟨saved, ran, (save_load_iff ran fun name _ => restored_of_few few name).mpr ?_⟩
  intro entry member
  obtain rfl := List.mem_singleton.mp member
  have again : Reread [1, 2, 3, 4] := exists_of_map_eq_some (by decide +kernel)
  exact ⟨⟨⟨by decide, by decide⟩, by decide, by decide⟩, again⟩

/-- An archive with an image under a name that the manifest of another archive could have. -/
def reservedName : Archive :=
  empty.insert "other_sha256.chk" (.raw { Buffer.empty none with bytes := [1, 2, 3, 4] })

/-- It is saved without complaint, and then not loaded any more. -/
theorem reservedName_not_loaded :
    ∃ saved, reservedName.save "a.zip" .default (Files.Disk.empty []) = .ok () saved ∧
      ∀ loaded, load saved "a.zip" ≠ .ok loaded := by
  obtain ⟨saved, ran⟩ : ∃ saved,
      reservedName.save "a.zip" .default (Files.Disk.empty []) = .ok () saved :=
    exists_saved (by decide +kernel)
  have few : reservedName.length + 1 < 0xFFFF := by decide
  refine ⟨saved, ran, fun loaded came => ?_⟩
  obtain ⟨unreserved, -⟩ := (load_saved_iff ran fun name _ => restored_of_few few name).mp came
  have ordinary := unreserved _ List.mem_cons_self (by decide)
  revert ordinary
  decide

end Saving

end SecureBoot.Archive
