import AddonBuild.Blake3
import AddonBuild.Disk.Change

/-!
# Replacing a file step by step

The new content of a file is written beside it, under a name that no other write takes, and is then
moved onto the file. Each step is one request to the disk and may be refused. What is there is known
by its size and its hash alone.
-/

namespace AddonBuild

/-- Whether an entry is taken for a file with the given content. -/
def Entry.seems (content : ByteArray) : Entry → Bool
  | .file found =>
    found.size == content.size &&
      Blake3.hash found.data.toList == Blake3.hash content.data.toList
  | .directory => false

namespace Disk

/-- Take the entry at one location to another. -/
def move (source target : Location) (e : Entry) : DiskM DiskError Unit := do
  let d := (← get).remove source
  if h : d.Admits target e then set (d.put target e h)
  else throw .notFound

/-- Give a regular file another path, in place of the file that has it. -/
def renameFile (source target : Path) : DiskM DiskError Unit := do
  let here ← WorkM.consult (·.locate source)
  match (← get).get? here with
  | some (.file content) =>
    if endsInName target then
      if endsInSlash target then throw .notDirectory
      let there ← WorkM.consult (·.locate target)
      if (← get).get? there = some .directory then throw .isDirectory
      move here there (.file content)
    else
      let _ ← WorkM.consult (·.locate target)
      throw .busy
  | some .directory => throw .isDirectory
  | none => throw .notFound

/-- Move a temporary file onto the file that it is for. It goes if it cannot be moved. -/
def moveOnto (temporary p : Path) : DiskM DiskError Unit := do
  match ← WorkM.attempt (renameFile temporary p) with
  | .ok _ => return
  | .error e =>
    let _ ← WorkM.attempt (removeFile temporary)
    throw e

/-- Give a file new content by way of a temporary file, making the directories that it lacks. -/
def replace (stamp : Stamp) (p : Path) (content : ByteArray) : DiskM DiskError Unit := do
  makeDirectories (homeOf p)
  putFile (waiting stamp p) .empty
  putFile (waiting stamp p) content
  moveOnto (waiting stamp p) p

/-- Give a file new content unless it seems to have that content already. Returns whether it was
written. -/
def replaceIfChanged (stamp : Stamp) (p : Path) (content : ByteArray) : DiskM DiskError Bool := do
  unlessThere ((← get).entry p) (·.seems content) (replace stamp p content)

end Disk

end AddonBuild
