import AddonBuild.Disk.Access

/-!
# Changing a disk

A change reports a value or an error, and says what it left on the disk either way.

New content waits beside its file until it is complete. The name that it has there is made from a
stamp, which no other write has.
-/

namespace AddonBuild

/-- A computation on a state that may fail. What it did before it failed stays done. -/
abbrev WorkM (σ ε : Type) := ExceptT ε (StateM σ)

namespace WorkM

variable {σ ε ε' α : Type}

/-- Ask the state a question. -/
def ask (question : σ → α) : WorkM σ ε α := do
  return question (← get)

/-- Ask the state a question that it may refuse to answer. -/
def consult (question : σ → Except ε α) : WorkM σ ε α := do
  match question (← get) with
  | .ok answer => return answer
  | .error e => throw e

/-- Reword the errors of a computation. -/
def mapError (f : ε → ε') (work : WorkM σ ε α) : WorkM σ ε' α :=
  ExceptT.adapt f work

/-- Run a computation and hand back its error as a value. -/
def attempt (work : WorkM σ ε α) : WorkM σ ε' (Except ε α) :=
  ExceptT.mk do return .ok (← work.run)

end WorkM

/-- A computation on a disk that may fail. -/
abbrev DiskM (ε : Type) := WorkM Disk ε

/-- What sets a write apart from all others: the number of the process, and that of the write among
those of the process. -/
structure Stamp where
  process : UInt32
  count : UInt64
deriving DecidableEq, Repr

/-- The stamp of the next write of the process. -/
def Stamp.next (stamp : Stamp) : Stamp :=
  { stamp with count := stamp.count + 1 }

namespace Disk

/-- Put an entry at a location, or refuse if the location does not admit it. -/
def putAt (l : Location) (e : Entry) : DiskM DiskError Unit := do
  let d ← get
  if h : d.Admits l e then set (d.put l e h)
  else throw .notFound

/-- Make a directory in one that exists. -/
def makeDirectory (p : Path) : DiskM DiskError Unit := do
  let l ← WorkM.consult (·.locate p)
  match (← get).get? l with
  | some _ => throw .alreadyExists
  | none => putAt l .directory

/-- Make the first of a chain of directories, each of which lies in the next. -/
def makeChain : List Path → DiskM DiskError Unit
  | [] => pure ()
  | p :: above => do
    if p.text.isEmpty then return
    match ← WorkM.attempt (makeDirectory p) with
    | .ok _ => return
    | .error .notFound =>
      makeChain above
      match ← WorkM.attempt (makeDirectory p) with
      | .ok _ => return
      | .error e => unless (← get).isDirectory p do throw e
    | .error e => unless (← get).isDirectory p do throw e

/-- Make a directory and the parents that it lacks. -/
def makeDirectories (p : Path) : DiskM DiskError Unit :=
  makeChain p.ancestors

/-- Put a file where a path names one, in a directory that exists. -/
def putFile (p : Path) (content : ByteArray) : DiskM DiskError Unit := do
  let l ← WorkM.consult (·.locate p)
  if (← get).get? l = some .directory then throw .isDirectory
  putAt l (.file content)

/-- The directory in which a path names a file. -/
def homeOf (p : Path) : Path :=
  p.parent?.getD ⟨"."⟩

/-- The name under which the new content of a file waits. -/
def waitingName (stamp : Stamp) (p : Path) : String :=
  "." ++ p.fileName?.getD "file" ++ ".tmp." ++ toString stamp.process.toNat ++ "." ++
    toString stamp.count.toNat

/-- Where the new content of a file waits until it is complete: beside the file, under a longer
name. -/
def waiting (stamp : Stamp) (p : Path) : Path :=
  (homeOf p).child (waitingName stamp p)

/-- Whether a path ends in a slash, which only the path of a directory may do. -/
def endsInSlash (p : Path) : Bool :=
  p.text.toList.getLast? == some '/'

/-- Whether a path ends in the name of an entry, and not at the top, in `.` or in `..`. -/
def endsInName (p : Path) : Bool :=
  match p.segments.reverse.find? (· ≠ "") with
  | some last => last ≠ "." && last ≠ ".."
  | none => false

/-- Put a file in place of the one that a path names. The name at the end of the path has to be one
that a file can take. -/
def putInPlace (p : Path) (content : ByteArray) : DiskM DiskError Unit := do
  if endsInName p then
    if endsInSlash p then throw .notDirectory
    putFile p content
  else
    let _ ← WorkM.consult (·.locate p)
    throw .busy

/-- Give a file in a directory that exists new content in one step. There has to be room for the
name under which the content waits, which is there no longer once the file is written. -/
def land (stamp : Stamp) (p : Path) (content : ByteArray) : DiskM DiskError Unit := do
  let _ ← WorkM.consult (·.locate (waiting stamp p))
  putInPlace p content

/-- Do work on a file unless the entry that was found there is the right one already. Returns
whether the work was done. -/
def unlessThere {σ : Type} (found : Except DiskError Entry) (isRight : Entry → Bool)
    (work : WorkM σ DiskError Unit) : WorkM σ DiskError Bool :=
  match found with
  | .ok e => do
    if isRight e then return false
    work
    return true
  | .error .notFound => do
    work
    return true
  | .error e => throw e

/-- Remove a regular file. -/
def removeFile (p : Path) : DiskM DiskError Unit := do
  let l ← WorkM.consult (·.locate p)
  match (← get).get? l with
  | some (.file _) => modify (·.remove l)
  | some .directory => throw .isDirectory
  | none => throw .notFound

/-- Remove a directory and all that lies in it. -/
def removeTree (p : Path) : DiskM DiskError Unit := do
  let l ← WorkM.consult (·.locate p)
  match (← get).get? l with
  | some .directory => modify (·.remove l)
  | some (.file _) => throw .notDirectory
  | none => throw .notFound

end Disk

end AddonBuild
