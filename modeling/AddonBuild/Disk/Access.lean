import AddonBuild.Disk.Basic
import AddonBuild.Path.Basic

/-!
# Reading a disk by path

A path is followed name by name from the top. Every name but the last has to be that of a
directory; the last may be missing, so that a new entry can be put there. A relative path is
followed from the top as well. Names and paths have a greatest length, and none holds a NUL.
-/

namespace AddonBuild

/-- Why a disk refuses an operation. A walk through a tree says which directory it could not
open. -/
inductive DiskError where
  | notFound
  | busy
  | alreadyExists
  | notDirectory
  | isDirectory
  | nameTooLong
  | nulInName
  | notText
  | unopened (directory : Path) (cause : DiskError)
deriving DecidableEq, Repr

/-- The wording of a refusal. -/
def DiskError.message : DiskError → String
  | .notFound => "No such file or directory (os error 2)"
  | .busy => "Device or resource busy (os error 16)"
  | .alreadyExists => "File exists (os error 17)"
  | .notDirectory => "Not a directory (os error 20)"
  | .isDirectory => "Is a directory (os error 21)"
  | .nameTooLong => "File name too long (os error 36)"
  | .nulInName => "file name contained an unexpected NUL byte"
  | .notText => "stream did not contain valid UTF-8"
  | .unopened directory cause => s!"IO error for operation on {directory.text}: {cause.message}"

namespace Disk

/-- The most bytes that the name of an entry has. -/
def maxNameLength : Nat := 255

/-- The most bytes that a path has. -/
def maxPathLength : Nat := 4095

/-- Follow the segments of a path down from a directory. -/
def descend (d : Disk) (here : Location) : List String → Except DiskError Location
  | [] => .ok here
  | segment :: rest =>
    if Path.isBlank segment then d.descend here rest
    else if segment = ".." then d.descend here.dropLast rest
    else if maxNameLength < segment.utf8ByteSize then .error .nameTooLong
    else
      let next := here ++ [segment]
      match d.get? next with
      | some .directory => d.descend next rest
      | some (.file _) => if rest.isEmpty then .ok next else .error .notDirectory
      | none => if rest.isEmpty then .ok next else .error .notFound

/-- The location a path names, whether or not there is an entry. -/
def locate (d : Disk) (p : Path) : Except DiskError Location :=
  if '\x00' ∈ p.text.toList then .error .nulInName
  else if p.text.isEmpty then .error .notFound
  else if maxPathLength < p.text.utf8ByteSize then .error .nameTooLong
  else d.descend [] p.segments

/-- The entry a path names. -/
def entry (d : Disk) (p : Path) : Except DiskError Entry := do
  let l ← d.locate p
  match d.get? l with
  | some e => .ok e
  | none => .error .notFound

/-- Whether a path names an entry of any kind. -/
def «exists» (d : Disk) (p : Path) : Bool :=
  (d.entry p).isOk

/-- Whether a path names a regular file. -/
def isFile (d : Disk) (p : Path) : Bool :=
  match d.entry p with
  | .ok (.file _) => true
  | _ => false

/-- Whether a path names a directory. -/
def isDirectory (d : Disk) (p : Path) : Bool :=
  match d.entry p with
  | .ok .directory => true
  | _ => false

/-- The location of a directory that is opened by its path, to read the names in it. -/
def openDirectory (d : Disk) (p : Path) : Except DiskError Location := do
  let l ← d.locate p
  match d.get? l with
  | some .directory => .ok l
  | some (.file _) => .error .notDirectory
  | none => .error .notFound

/-- The bytes of the file a path names. -/
def read (d : Disk) (p : Path) : Except DiskError ByteArray := do
  match ← d.entry p with
  | .file content => .ok content
  | .directory => .error .isDirectory

/-- Content that was read is that of a file of the disk. -/
theorem mem_entries_of_read {d : Disk} {p : Path} {content : ByteArray}
    (h : d.read p = .ok content) : ∃ l, (l, Entry.file content) ∈ d.entries := by
  unfold read entry at h
  cases hl : d.locate p with
  | error e => simp [hl, bind, Except.bind] at h
  | ok l =>
    cases hg : d.get? l with
    | none => simp [hl, hg, bind, Except.bind] at h
    | some e =>
      cases e with
      | directory => simp [hl, hg, bind, Except.bind] at h
      | file found =>
        have hne : l ≠ [] := by
          intro hnil
          simp [hnil] at hg
        refine ⟨l, mem_entries_of_get? hne ?_⟩
        have heq : found = content := by simpa [hl, hg, bind, Except.bind] using h
        rw [hg, heq]

/-- The text of the file a path names, which has to be UTF-8. -/
def readText (d : Disk) (p : Path) : Except DiskError String := do
  match String.fromUTF8? (← d.read p) with
  | some text => .ok text
  | none => .error .notText

theorem of_readText_eq_ok {d : Disk} {p : Path} {text : String} (h : d.readText p = .ok text) :
    ∃ content, d.read p = .ok content ∧ String.fromUTF8? content = some text := by
  unfold readText at h
  cases hr : d.read p with
  | error e => simp [hr, bind, Except.bind] at h
  | ok content =>
    refine ⟨content, rfl, ?_⟩
    cases hu : String.fromUTF8? content with
    | none => simp [hr, hu, bind, Except.bind] at h
    | some found => simpa [hr, hu, bind, Except.bind] using h

end Disk

end AddonBuild
