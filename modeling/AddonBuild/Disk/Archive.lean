import AddonBuild.Disk.Change
import AddonBuild.Disk.Listing
import AddonBuild.Json.Basic

/-!
# Disks as JSON

A disk is written as an object with one member for each entry. A file is its text, or the list of
its bytes if they are no text; a directory is `null`.
-/

namespace AddonBuild

/-- An entry as JSON. -/
def Entry.toJson : Entry → Json
  | .file content =>
    match String.fromUTF8? content with
    | some text => .string text
    | none => .array (content.data.toList.map fun b => .ofNat b.toNat)
  | .directory => .null

/-- A byte written as a number. -/
def byte? : Json → Option UInt8
  | .number (.whole value) =>
    if 0 ≤ value ∧ value < 256 then some value.toNat.toUInt8 else none
  | _ => none

/-- The entry that a value describes. -/
def Entry.ofJson? : Json → Option Entry
  | .string text => some (.file text.toUTF8)
  | .array items => (items.mapM byte?).map fun bytes => .file ⟨bytes.toArray⟩
  | .null => some .directory
  | _ => none

namespace Disk

/-- A disk as JSON, in the order of the locations. -/
def toJson (d : Disk) : Json :=
  .object (d.entries.map fun (l, e) => (l.path.text, e.toJson))

/-- Put an entry where a path says, with the directories on the way. -/
def unpack (p : Path) : Entry → DiskM DiskError Unit
  | .file content => do
    makeDirectories (homeOf p)
    putFile p content
  | .directory => makeDirectories p

/-- The disk with the entries that the members of an object describe, if they fit together. -/
def ofJson? (value : Json) : Option Disk := do
  let members ← value.object?
  let entries ← members.mapM fun (key, value) => do return ((⟨key⟩ : Path), ← Entry.ofJson? value)
  match (entries.forM fun (p, e) => unpack p e).run empty with
  | (.ok (), d) => return d
  | (.error _, _) => none

end Disk

end AddonBuild
