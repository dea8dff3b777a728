import AddonBuild.Fault
import AddonBuild.Json.Parser
import AddonBuild.Json.Printer
import AddonBuild.Json.Relaxed

/-!
# JSON documents on disk

Configuration files are read afresh from the disk on every use, either as JSON or in the relaxed
dialect. Other documents are checked, or turned into modules that export them.
-/

namespace AddonBuild

namespace Document

/-- The JSON value of the bytes of a file, after a preparation of the bytes. -/
def readAs (prepare : List UInt8 → List UInt8) (d : Disk) (file : Path) : Except Fault Json :=
  match d.readText file with
  | .error cause => .error (.unreadableConfig file cause)
  | .ok text => (Json.parse (prepare text.toUTF8.data.toList)).mapError (.malformedConfig file)

/-- The value of a configuration file. -/
def read (d : Disk) (file : Path) : Except Fault Json :=
  readAs id d file

/-- A value that was read is that of a text on the disk. -/
theorem of_read_eq_ok {d : Disk} {file : Path} {value : Json} (h : read d file = .ok value) :
    ∃ text, d.readText file = .ok text ∧ Json.parse text.toUTF8.data.toList = .ok value := by
  unfold read readAs at h
  cases ht : d.readText file with
  | error cause => simp [ht] at h
  | ok text =>
    refine ⟨text, rfl, ?_⟩
    cases hp : Json.parse text.toUTF8.data.toList with
    | error fault => simp only [ht, hp, id] at h; cases h
    | ok found => simp only [ht, hp, id] at h; cases h; rfl

/-- The value of a configuration file that may hold comments and trailing commas. -/
def readRelaxed (d : Disk) (file : Path) : Except Fault Json :=
  readAs Json.Relaxed.strip d file

/-- Check that the content of a file is well-formed JSON. -/
def validate (file : Path) (content : ByteArray) : Except Fault Unit :=
  (Json.check content.data.toList).mapError (.invalidJson file)

/-- A module whose default export is the given value. -/
def moduleText (value : Json) : String :=
  "export default " ++ value.compact ++ ";"

/-- The content of a JSON file as a module. -/
def toModule (file : Path) (content : ByteArray) : Except Fault String :=
  ((Json.parse content.data.toList).mapError (.invalidJson file)).map moduleText

/-- The names listed under `dependencies`, in order. -/
def dependencyNames (manifest : Json) : List String :=
  match (manifest.get? "dependencies").bind Json.object? with
  | some members => members.map (·.1)
  | none => []

end Document

end AddonBuild
