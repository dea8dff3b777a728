import AddonBuild.Document
import AddonBuild.Path.Clean

/-!
# Alias tables

An alias table maps patterns of import specifiers to the places they may stand for. Keys keep the
order in which they were first added, which is also the order in which they are tried; adding to a
key that is there appends to its candidates.
-/

namespace AddonBuild

/-- The tree a candidate points into: that of the sources or that of the build. -/
inductive Candidate.Tree where
  | source
  | destination
deriving DecidableEq, Repr

/-- One place an alias may stand for. -/
structure Candidate where
  path : Pattern
  tree : Candidate.Tree
deriving DecidableEq, Repr

namespace Candidate

/-- How a tree is called in messages. -/
def Tree.text : Tree → String
  | .source => "src"
  | .destination => "dest"

/-- The text of a candidate in messages. -/
def text (c : Candidate) : String :=
  s!"{c.path.render} ({c.tree.text})"

end Candidate

/-- A list of keys as they are written, each with its candidates. -/
abbrev Aliases := List (String × List Candidate)

/-- Candidates by key pattern. Relative candidates are read from the base directory. -/
structure AliasTable where
  base : Path
  entries : List (Pattern × List Candidate)
deriving DecidableEq, Repr

/-- Read a pattern from the settings. -/
def Pattern.parse (source : String) : Except SettingFault Pattern :=
  match parse? source with
  | some p => .ok p
  | none => .error (.twoWildcards source)

namespace AliasTable

/-- A table without entries. -/
def empty (base : Path) : AliasTable :=
  ⟨base, []⟩

/-- The base directory of a table for which nobody gave one. -/
def defaultBase : Path := ⟨"/nonexistent"⟩

instance : Inhabited AliasTable := ⟨empty defaultBase⟩

/-- Append candidates to a key, which is added at the end if it is new. -/
def extend (key : Pattern) (candidates : List Candidate) :
    List (Pattern × List Candidate) → List (Pattern × List Candidate)
  | [] => [(key, candidates)]
  | (k, cs) :: rest =>
    if k = key then (k, cs ++ candidates) :: rest
    else (k, cs) :: extend key candidates rest

/-- The table with candidates appended to a key. -/
def insert (t : AliasTable) (key : Pattern) (candidates : List Candidate) : AliasTable :=
  { t with entries := extend key candidates t.entries }

/-- The table with candidates appended to the key that a text denotes. -/
def add (t : AliasTable) (key : String) (candidates : List Candidate) :
    Except SettingFault AliasTable :=
  (Pattern.parse key).map (t.insert · candidates)

/-- Add aliases one after the other, up to the first key that is no pattern. The table holds what
was added even if there is such a key. -/
def addAliases (t : AliasTable) : Aliases → AliasTable × Option SettingFault
  | [] => (t, none)
  | (key, candidates) :: rest =>
    match t.add key candidates with
    | .ok t => t.addAliases rest
    | .error fault => (t, some fault)

/-- The table with all of the aliases, if every key is a pattern. -/
def addAll (t : AliasTable) (aliases : Aliases) : Except Fault AliasTable :=
  match t.addAliases aliases with
  | (t, none) => .ok t
  | (_, some fault) => .error (.setting fault)

/-- The candidates of a key as it is written. -/
def get? (t : AliasTable) (key : String) : Option (List Candidate) :=
  (t.entries.find? fun entry => entry.1.render = key).map (·.2)

/-! ### Path mappings -/

/-- The candidates that a path mapping lists for a key. -/
def mappedCandidates (file : Path) (key : String) (targets : Json) :
    Except SettingFault (List Candidate) :=
  match targets with
  | .array items => items.mapM fun
    | .string target => return ⟨← Pattern.parse target, .source⟩
    | _ => throw (.pathsNotStrings file key)
  | _ => .error (.pathsNotArray file key)

/-- Add the keys of a path mapping. -/
def addMappings (file : Path) (t : AliasTable) : Json.Members → Except SettingFault AliasTable
  | [] => .ok t
  | (key, targets) :: rest => do
    let t ← t.add key (← mappedCandidates file key targets)
    addMappings file t rest

/-- The table that the settings of a compiler describe. -/
def ofSettings (file : Path) (settings : Json) : Except SettingFault AliasTable :=
  let directory := file.parent?.getD ⟨"."⟩
  let options := (settings.get? "compilerOptions").getD .null
  let base := match options.getString? "baseUrl" with
    | some url => directory.absolutize ⟨url⟩
    | none => directory
  match options.get? "paths" with
  | some (.object mappings) => addMappings file (empty base) mappings
  | _ => .ok (empty base)

/-- The table of a settings file. Without the file it is empty. -/
def load (d : Disk) (file : Path) : Except Fault AliasTable :=
  if d.isFile file then do
    let settings ← Document.readRelaxed d file
    (ofSettings file settings).mapError .setting
  else .ok default

end AliasTable

end AddonBuild
