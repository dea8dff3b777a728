import AddonBuild.Disk.Change

/-!
# Writing in a session

The writes of one process are numbered one after another. A session is the disk that a process works
on, together with the stamp of its next write.
-/

namespace AddonBuild

/-- A disk, and the stamp of the next write to it. -/
structure Session where
  disk : Disk
  stamp : Stamp

/-- A computation in a session that may fail. -/
abbrev SessionM (ε : Type) := WorkM Session ε

namespace SessionM

variable {ε α : Type}

/-- Work on the disk alone. -/
def ofDisk (work : DiskM ε α) : SessionM ε α :=
  ExceptT.mk fun s =>
    let (result, disk) := work.run.run s.disk
    (result, { s with disk })

/-- Ask the disk a question. -/
def ask (question : Disk → α) : SessionM ε α :=
  WorkM.ask fun s => question s.disk

/-- Ask the disk a question that it may refuse to answer. -/
def consult (question : Disk → Except ε α) : SessionM ε α :=
  WorkM.consult fun s => question s.disk

end SessionM

namespace Session

/-- The session in which a process starts. -/
def start (process : UInt32) (disk : Disk) : Session :=
  ⟨disk, ⟨process, 0⟩⟩

/-- Take the stamp of the next write. -/
def takeStamp : SessionM DiskError Stamp := do
  let s ← get
  set { s with stamp := s.stamp.next }
  return s.stamp

/-- Give a file new content, making the directories that it lacks. -/
def write (p : Path) (content : ByteArray) : SessionM DiskError Unit := do
  .ofDisk (Disk.makeDirectories (Disk.homeOf p))
  let stamp ← takeStamp
  .ofDisk (Disk.land stamp p content)

/-- Give a file new content unless it has that content already. Returns whether it was written. -/
def writeIfChanged (p : Path) (content : ByteArray) : SessionM DiskError Bool := do
  Disk.unlessThere ((← get).disk.entry p) (· = .file content) (write p content)

end Session

end AddonBuild
