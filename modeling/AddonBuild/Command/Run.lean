import AddonBuild.Build.Run
import AddonBuild.Command.Arguments

/-!
# Running a command

A command works on a disk and answers either people or programs. What goes wrong is reported to
programs in the same place as an answer, and to people apart from it.
-/

namespace AddonBuild

namespace Command

/-- The answer to a command, as text and as JSON. -/
structure Answer where
  text : String
  json : String

/-- How a command ends: its exit code, what it prints, and the message of its failure if that is
not part of what it prints. -/
structure Outcome where
  code : Nat
  stdout : String
  failure : Option String
deriving DecidableEq, Repr

/-! ### Answers -/

/-- JSON on a line of its own. -/
def jsonLine (value : Json) : String :=
  value.compact ++ "\n"

/-- JSON over several lines. -/
def jsonLines (value : Json) : String :=
  value.pretty "  " ++ "\n"

/-- Lines of text, each with its end. -/
def linesOf (texts : List String) : String :=
  String.join (texts.map (· ++ "\n"))

/-- A list of paths as JSON. -/
def pathsJson (paths : List Path) : Json :=
  .ofStrings (paths.map (·.text))

/-- The answer that tells the version. -/
def versionAnswer : Answer where
  text := linesOf [Tool.title]
  json := jsonLine (.object [("ok", .bool true), ("version", .string Tool.version.text)])

/-- The answer to a build. -/
def buildAnswer (r : Build.Report) : Answer :=
  let project := r.project.name
  let archive := r.project.archiveName
  let manifests := r.manifests
  let written := r.contents.written
  let unchanged := r.contents.unchanged
  let vendored := r.contents.vendored
  { text := linesOf [
      s!"Built {project} ({archive}): {manifests} manifest(s) written, " ++
      s!"{written} file(s) written, {unchanged} unchanged, {r.removed} stale removed, " ++
      s!"{vendored} package(s) vendored"]
    json := jsonLines (.object [
      ("ok", .bool true),
      ("project", .string project),
      ("archive", .string archive),
      ("manifests", .ofNat manifests),
      ("contents", .object [
        ("written", .ofNat written),
        ("unchanged", .ofNat unchanged),
        ("vendored", .ofNat vendored)]),
      ("removed", .ofNat r.removed)]) }

/-- The text that says which trees were removed. -/
def removedText (removed : List Path) : String :=
  if removed.isEmpty then linesOf ["Nothing to clean"]
  else linesOf (removed.map fun p => s!"Removed {p.text}")

/-- The answer to the removal of the trees of a build. -/
def cleanAnswer (removed : List Path) : Answer where
  text := removedText removed
  json := jsonLine (.object [("ok", .bool true), ("removed", pathsJson removed)])

/-- The answer to the removal of all that builds put out. -/
def cleanAllAnswer (root : Path) (removed : Bool) : Answer where
  text := removedText (if removed then [root] else [])
  json := jsonLine (.object [
    ("ok", .bool true), ("removed", .bool removed), ("path", .string root.text)])

/-- A package to stage, as a line of text. -/
def taskText (t : StagingTask) : String :=
  let files := ", ".intercalate t.files
  s!"{t.package}: {t.source.text} -> {t.destination.text} [{files}]"

/-- A package to stage, as JSON. -/
def taskJson (t : StagingTask) : Json :=
  .object [
    ("package", .string t.package),
    ("src_dir", .string t.source.text),
    ("dest_dir", .string t.destination.text),
    ("files", .ofStrings t.files)]

/-- The places that candidates stand for, as they are written. -/
def candidateTexts (candidates : List Candidate) : List String :=
  candidates.map (·.path.render)

/-- An alias, as a line of text. -/
def aliasText (a : String × List Candidate) : String :=
  let candidates := ", ".intercalate (candidateTexts a.2)
  s!"{a.1} -> {candidates}"

/-- An alias, as JSON. -/
def aliasJson (a : String × List Candidate) : Json :=
  .object [("key", .string a.1), ("candidates", .ofStrings (candidateTexts a.2))]

/-- The answer that tells which packages would be staged, and under which aliases. -/
def vendorAnswer (root : Path) (tasks : List StagingTask) (aliases : Aliases) : Answer where
  text :=
    if tasks.isEmpty then linesOf ["Nothing to vendor"]
    else linesOf (tasks.map taskText ++ [""] ++ aliases.map aliasText)
  json := jsonLines (.object [
    ("ok", .bool true),
    ("vendor_root", .string root.text),
    ("packages", .array (tasks.map taskJson)),
    ("aliases", .array (aliases.map aliasJson))])

/-- The answer that shows a relocated script. -/
def relocateAnswer (script : ScriptText) : Answer where
  text := script.contents
  json := jsonLines (.object [
    ("ok", .bool true),
    ("src", .string script.source.text),
    ("dest", .string script.destination.text),
    ("contents", .string script.contents)])

/-! ### Commands -/

/-- Find the packages that would be staged under `root`. -/
def answerVendor (c : Config) (root : Path) (d : Disk) : Except Fault Answer := do
  let vendor ← Vendor.load d c.packageJson c.exclude
  let aliases ← vendor.aliases root
  let plan ← StagingPlan.ofVendor vendor root
  return vendorAnswer root plan.tasks aliases

/-- Relocate one script by the path mappings of the project. -/
def answerRelocate (c : Config) (file destination : Path) (d : Disk) : Except Fault Answer := do
  let aliases ← AliasTable.load d c.compilerSettingsPath
  let relocator := { Relocator.ofAliases aliases with reserved := c.reserved }
  let contents ← (d.readText file).mapError .disk
  return relocateAnswer (← relocator.relocate d ⟨file, destination, contents⟩)

/-- Do what a command says, given the directory from which its paths are read. -/
def perform (c : Config) (directory : Path) : Command → SessionM Fault Answer
  | .version => return versionAnswer
  | .build => return buildAnswer (← Build.run c)
  | .clean => return cleanAnswer (← .ofDisk (Build.clean c))
  | .cleanAll => return cleanAllAnswer c.distPath (← .ofDisk (Build.cleanAll c))
  | .vendor root =>
    SessionM.consult (answerVendor c (root.elim c.buildPath directory.absolutize))
  | .relocate file destination =>
    SessionM.consult
      (answerRelocate c (directory.absolutize file) (directory.absolutize destination))

/-- A fault as JSON. -/
def faultJson (fault : Fault) : Json :=
  .object [
    ("ok", .bool false),
    ("error", .object [("code", .string fault.code), ("message", .string fault.message)])]

/-- How a command ends that has or has not found an answer. -/
def Outcome.of (json : Bool) : Except Fault Answer → Outcome
  | .ok answer => ⟨0, if json then answer.json else answer.text, none⟩
  | .error fault =>
    if json then ⟨1, jsonLines (faultJson fault), none⟩ else ⟨1, "", some fault.message⟩

end Command

namespace Invocation

/-- The directory that an invocation works in. -/
def workingDirectory (i : Invocation) (current : Path) : Path :=
  i.directory.elim current current.absolutize

/-- The settings of an invocation. Its project is the nearest one around its directory. -/
def config (i : Invocation) (directory : Path) (d : Disk) : Config :=
  let root := (Config.findRoot? d directory).getD directory
  ((Config.ofRoot root).withReserved i.reserved).withExcluded i.exclude

/-- Run an invocation in the given directory. -/
def run (i : Invocation) (current : Path) : StateM Session Command.Outcome := do
  let directory := i.workingDirectory current
  let c := i.config directory (← get).disk
  return .of i.json (← (i.command.perform c directory).run)

end Invocation

/-- Run the command that arguments spell out, in the given directory. -/
def Command.run (arguments : List String) (current : Path) : StateM Session Command.Outcome :=
  match Invocation.parse arguments with
  | .ok i => i.run current
  | .error .showVersion => return ⟨0, versionAnswer.text, none⟩
  | .error .usage => return ⟨2, "", none⟩

end AddonBuild
