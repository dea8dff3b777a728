import AddonBuild.Command.Run
import AddonBuild.Disk.Archive

/-!
# The command line

The tool works on the tree that it is given: the standard input holds one line of JSON with the
current directory, the number of the process and the tree, and the standard output gets one line of
JSON with what the command printed and the tree that it left. The exit code is that of the command.
-/

namespace AddonBuild

namespace Command

/-- The outcome of a command and the tree that it left, as JSON. -/
def sessionJson (outcome : Outcome) (d : Disk) : Json :=
  .object [
    ("stdout", .string outcome.stdout),
    ("failure", outcome.failure.elim .null .string),
    ("tree", d.toJson)]

/-- The number of the process that a request asks for. -/
def process? (request : Json) : Option UInt32 :=
  match request.get? "process" with
  | some (.number (.whole value)) => some value.toNat.toUInt32
  | _ => none

/-- Run a command on the tree that a text describes. -/
def session? (arguments : List String) (input : String) : Option (Outcome × Disk) := do
  let request ← (Json.parse input.toUTF8.data.toList).toOption
  let directory ← request.getString? "directory"
  let process ← process? request
  let d ← (request.get? "tree").bind Disk.ofJson?
  let (outcome, s) := (run arguments ⟨directory⟩).run (.start process d)
  return (outcome, s.disk)

end Command

end AddonBuild

open AddonBuild in
/-- Run the command that the arguments spell out on the tree on standard input. -/
def main (arguments : List String) : IO UInt32 := do
  let input ← (← IO.getStdin).getLine
  match Command.session? arguments input with
  | some (outcome, d) =>
    IO.println (Command.sessionJson outcome d).compact
    return outcome.code.toUInt32
  | none =>
    IO.eprintln "expected an object with a directory, a process and a tree"
    return 2
