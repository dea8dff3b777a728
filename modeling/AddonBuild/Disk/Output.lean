import AddonBuild.Disk.Session
import AddonBuild.Fault

/-!
# Outputs

A task answers for the files it puts out, whether it had to write them or found them up to date. It
counts them as it goes, and the counts of several tasks are added up.
-/

namespace AddonBuild

/-- A file that a task puts out, and whether the task had to write it. -/
structure Output where
  path : Path
  fresh : Bool
deriving DecidableEq, Repr

/-- Put out a file with the given content. -/
def Output.emit (path : Path) (content : ByteArray) : SessionM Fault Output := do
  let fresh ← (Session.writeIfChanged path content).mapError .disk
  return ⟨path, fresh⟩

/-- How many files were written, how many were up to date, and the paths of them all. -/
structure Tally where
  written : Nat
  unchanged : Nat
  outputs : List Path
deriving DecidableEq, Repr

namespace Tally

/-- The tally of a task that has put out nothing. -/
def zero : Tally :=
  ⟨0, 0, []⟩

/-- Count a file. -/
def record (t : Tally) (o : Output) : Tally where
  written := if o.fresh then t.written + 1 else t.written
  unchanged := if o.fresh then t.unchanged else t.unchanged + 1
  outputs := t.outputs ++ [o.path]

/-- Add up two tallies. -/
def merge (a b : Tally) : Tally where
  written := a.written + b.written
  unchanged := a.unchanged + b.unchanged
  outputs := a.outputs ++ b.outputs

/-- Count files one after another. -/
def ofOutputs (outputs : List Output) : Tally :=
  outputs.foldl record zero

end Tally

end AddonBuild
