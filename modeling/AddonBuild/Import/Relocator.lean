import AddonBuild.Import.AliasTable
import AddonBuild.Import.Resolution
import AddonBuild.Script.Scanner

/-!
# Relocating imports

A script keeps working after it has been moved when its imports are relocated for the new place. A
specifier that starts with a dot is read from the directory of the source; one with a reserved
prefix belongs to the host and stays; any other has to match an alias.
-/

namespace AddonBuild

/-- A script on its way from the source tree to the build. -/
structure ScriptText where
  source : Path
  destination : Path
  contents : String
deriving DecidableEq, Repr

/-- How imports are relocated. The planned files count as present before they are written. -/
structure Relocator where
  aliases : AliasTable
  reserved : List String
  planned : List Path

namespace Relocator

/-- The prefixes that belong to the host unless others are given. -/
def defaultReserved : List String := ["@minecraft/"]

/-- A relocator with the default prefixes and no planned files. -/
def ofAliases (aliases : AliasTable) : Relocator :=
  ⟨aliases, defaultReserved, []⟩

/-- Which files a relocator counts as present on a disk. -/
def presence (r : Relocator) (d : Disk) (p : Path) : Bool :=
  p.isIn r.planned || d.exists p

/-! ### One specifier -/

/-- Relocate a specifier that starts with a dot. If nothing is found there, it may be generated
later, and the specifier stays. -/
def relocateRelative (present : Path → Bool) (specifier : String) (source : Path) : String :=
  let place := source.directory.absolutize ⟨specifier⟩
  (Import.resolve? present specifier source place).getD specifier

/-- The place a candidate stands for. Only a candidate with a wildcard fits a key with one. -/
def candidateText (key : Pattern) (found : Pattern.Match) (c : Candidate) :
    Except SettingFault String :=
  match found with
  | .exact =>
    if c.path.hasWildcard then .error (.exactAlias key c.path) else .ok c.path.render
  | .captured value =>
    if c.path.hasWildcard then .ok (c.path.substitute value)
    else .error (.wildcardAlias key c.path)

/-- The first candidate that resolves, or nothing if none does. -/
def firstResolved (present : Path → Bool) (base : Path) (key : Pattern) (found : Pattern.Match)
    (specifier : String) (source destination : Path) :
    List Candidate → Except SettingFault (Option String)
  | [] => .ok none
  | c :: rest => do
    let place := base.absolutize ⟨← candidateText key found c⟩
    let anchor := match c.tree with
      | .source => source
      | .destination => destination
    match Import.resolve? present specifier anchor place with
    | some resolved => return some resolved
    | none => firstResolved present base key found specifier source destination rest

/-- The first entry whose key matches, and how it does. -/
def firstMatch (specifier : String) :
    List (Pattern × List Candidate) → Option (Pattern × Pattern.Match × List Candidate)
  | [] => none
  | (key, candidates) :: rest =>
    match key.match? specifier with
    | some found => some (key, found, candidates)
    | none => firstMatch specifier rest

/-- Relocate a specifier by its alias. -/
def relocateSymbolic (present : Path → Bool) (aliases : AliasTable) (specifier : String)
    (source destination : Path) : Except Fault String :=
  match firstMatch specifier aliases.entries with
  | none => .error (.unresolvedImport source specifier [])
  | some (key, found, candidates) =>
    match firstResolved present aliases.base key found specifier source destination candidates with
    | .error fault => .error (.setting fault)
    | .ok (some resolved) => .ok resolved
    | .ok none => .error (.unresolvedImport source specifier (candidates.map Candidate.text))

/-- Whether a specifier starts with a dot. -/
def isRelative (specifier : String) : Bool :=
  Text.startsWith "." specifier

/-- Whether a specifier belongs to the host. -/
def isReserved (r : Relocator) (specifier : String) : Bool :=
  r.reserved.any fun lead => Text.startsWith lead specifier

/-- Relocate one specifier of a script for its destination. -/
def relocateSpecifier (r : Relocator) (present : Path → Bool) (source destination : Path)
    (specifier : String) : Except Fault String :=
  if isRelative specifier then .ok (relocateRelative present specifier source)
  else if r.isReserved specifier then .ok specifier
  else relocateSymbolic present r.aliases specifier source destination

/-! ### Whole scripts -/

/-- The text to be written in place of a specifier of a script. A call of `import` whose module is
not found is left to the running program. -/
def relocateSpan (r : Relocator) (present : Path → Bool) (source destination : Path)
    (span : Script.Span) : Except Fault String :=
  match r.relocateSpecifier present source destination span.specifier.text, span.specifier.kind with
  | .error (.unresolvedImport ..), .dynamic => .ok span.specifier.text
  | outcome, _ => outcome

/-- A script from the byte `copied` on, with other texts in place of the given specifiers. -/
def splice (contents : String) (relocated : Script.Span → Except Fault String) (copied : Nat) :
    List Script.Span → Except Fault String
  | [] => .ok (Script.slice contents copied contents.utf8ByteSize)
  | span :: rest => do
    let text ← relocated span
    let behind ← splice contents relocated span.stop rest
    return Script.slice contents copied span.start ++ text ++ behind

/-- Relocate every specifier of a script and keep all else. -/
def relocateContents (r : Relocator) (present : Path → Bool) (source destination : Path)
    (contents : String) : Except Fault String :=
  splice contents (r.relocateSpan present source destination) 0 (Script.scan contents)

/-- Relocate a script on a disk. -/
def relocate (r : Relocator) (d : Disk) (script : ScriptText) : Except Fault ScriptText := do
  let contents ← r.relocateContents (r.presence d) script.source script.destination script.contents
  return { script with contents }

/-- Read a script from one tree and relocate it for the same place in another. -/
def relocateFile (r : Relocator) (d : Disk) (sourceRoot relative destinationRoot : Path) :
    Except Fault ScriptText := do
  let source := sourceRoot.join relative
  let contents ← (d.readText source).mapError .disk
  r.relocate d ⟨source, destinationRoot.join relative, contents⟩

end Relocator

end AddonBuild
