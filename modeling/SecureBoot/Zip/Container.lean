import SecureBoot.Archive.Container
import SecureBoot.Zip

/-!
ZIP as the format of containers that commands work with; archives do not depend on it. How much
effort goes into packing makes no difference to what comes back, and is not looked at.
-/

namespace SecureBoot.Zip

/-- What is put into the container for an entry. -/
def Entry.ofEntry (entry : Container.Entry) : Entry :=
  ⟨entry.name, entry.bytes, entry.packing = .stored⟩

/-- Open a member. -/
def Member.opened (member : Member) : Except Failure Container.Member := do
  member.check
  return ⟨member.name, Container.isDirectoryName member.name, member.contents⟩

instance format : Container where
  write entries := Edit.change fun _ => encode (entries.map Entry.ofEntry)
  members container := (members container).map fun found => found.map Member.opened

end SecureBoot.Zip
