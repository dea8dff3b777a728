import AddonBuild.Document
import AddonBuild.Project.Pack
import AddonBuild.Project.Source
import AddonBuild.Tool

/-!
# Loading a project

A project is described by its root package and by a source of manifests. Every pack takes what it
does not say itself from the common part of that source, and what that does not say from the root
package. Wherever a version is expected, the word `self` stands for the version of the project.
-/

namespace AddonBuild

/-! ### Texts -/

/-- The word for the version of the project itself. -/
def Version.selfWord : String := "self"

/-- The version that a text stands for in a project of the given version. -/
def Version.read (own : Version) (text : String) : Except ProjectFault Version :=
  if text = selfWord then .ok own else (parse text).mapError (.badVersion text)

/-- The identifier that a text stands for. -/
def Uuid.read (text : String) : Except ProjectFault Uuid :=
  match parse text with
  | some uuid => .ok uuid
  | none => .error (.badUuid text)

/-! ### Modules and dependencies -/

/-- The module that an object describes. -/
def Module.load (own : Version) (description : Json) : Except ProjectFault Module := do
  let some word := description.getString? "type" | throw .untypedModule
  if word = "javascript" then throw .deprecatedModule
  let members := (description.object?).getD []
  let source ← (Source.decode word members).mapError .badModule
  return {
    description := source.description.getD ""
    uuid := ← Uuid.read source.uuid
    version := ← own.read source.version
    globs := source.globs
    kind := source.kind }

/-- The target that an object describes. -/
def Dependency.Target.load (description : Json) : Except ProjectFault Target :=
  match description.getString? "uuid", description.getString? "module_name" with
  | some uuid, _ => (Uuid.read uuid).map pack
  | none, some name => .ok (hostModule name)
  | none, none => .error .noDependencyTarget

/-- The version that the description of a dependency asks for. -/
def Dependency.loadVersion (own : Version) (version : Option String) :
    Except ProjectFault Version :=
  match version with
  | some text => own.read text
  | none => .error .noDependencyVersion

/-- The dependency that an object describes. -/
def Dependency.load (own : Version) (description : Json) : Except ProjectFault Dependency := do
  let target ← Target.load description
  return ⟨target, ← loadVersion own (description.getString? "version")⟩

/-- The dependency on a module of the host that is listed by its name. -/
def Dependency.loadNamed (own : Version) (item : String × Json) : Except ProjectFault Dependency :=
  return ⟨.hostModule item.1, ← loadVersion own item.2.string?⟩

/-- The dependencies of a pack, listed as objects or by their names. -/
def Dependency.loadAll (own : Version) (pack : String) (listed : Option Json) :
    Except ProjectFault (List Dependency) :=
  match listed with
  | none | some .null => .ok []
  | some (.array items) => items.mapM (load own)
  | some (.object members) => members.mapM (loadNamed own)
  | some _ => .error (.dependenciesShape pack)

/-! ### Metadata -/

/-- Give a tool its versions: in place if it is listed, at the end if it is new. -/
def Metadata.setTool (tool : String) (versions : List Version) :
    List (String × List Version) → List (String × List Version)
  | [] => [(tool, versions)]
  | (name, known) :: rest =>
    if name = tool then (name, versions) :: rest else (name, known) :: setTool tool versions rest

/-- The versions of one tool. -/
def Metadata.loadTool (own : Version) (item : String × List String) :
    Except ProjectFault (String × List Version) :=
  return (item.1, ← item.2.mapM own.read)

/-- The metadata of a pack, among whose tools is this one. -/
def Metadata.load (own : Version) (source : Source) : Except ProjectFault Metadata :=
  return {
    authors := source.authors
    license := source.license
    generatedWith := setTool Tool.name [Tool.version] (← source.generatedWith.mapM (loadTool own))
    url := source.url }

/-! ### Packs -/

/-- The version that a pack gives to its modules unless they have their own. -/
def Pack.Source.moduleDefaults (source : Pack.Source) : Json :=
  .object [("version", .string source.version)]

/-- The pack that a description spells out. Its icon is read from the given directory. -/
def Pack.ofSource (own : Version) (directory : Path) (source : Pack.Source) :
    Except ProjectFault Pack := do
  let version ← own.read source.version
  let modules ← source.modules.mapM fun m => Module.load own (source.moduleDefaults.merge m)
  let some kind := Kind.ofModules? modules | throw (.noModules source.name)
  let dependencies ← Dependency.loadAll own source.name source.dependencies
  let metadata ← Metadata.load own (source.metadata.getD .empty)
  return {
    name := source.name
    uuid := ← Uuid.read source.uuid
    description := source.description.getD ""
    version
    icon := source.icon.map fun icon => directory.absolutize ⟨icon⟩
    minEngineVersion := ← source.minEngineVersion.mapM own.read
    baseGameVersion := ← source.baseGameVersion.mapM own.read
    lockTemplateOptions := source.lockTemplateOptions
    modules
    dependencies
    capabilities := source.capabilities.getD []
    metadata
    kind }

/-- The pack that a value describes, laid over the common part. -/
def Pack.load (own : Version) (directory : Path) (common description : Json) :
    Except ProjectFault Pack := do
  let source ← (Source.decode (common.merge description)).mapError .badPack
  ofSource own directory source

/-! ### Projects -/

namespace Project

/-- A person, written in one line. -/
def person? : Json → Option String
  | .string text => some text
  | .object members => do
    let value := Json.object members
    let name ← value.getString? "name"
    let email := (value.getString? "email").elim "" fun email => s!" <{email}>"
    let url := (value.getString? "url").elim "" fun url => s!" ({url})"
    return name ++ email ++ url
  | _ => none

/-- Who made a package: its author, then its contributors. -/
def people (package : Json) : List String :=
  let contributors := ((package.get? "contributors").bind Json.array?).getD []
  ((package.get? "author").bind person?).toList ++ contributors.filterMap person?

/-- What the root package says about every pack. -/
def defaults (name version : String) (package : Json) : Json :=
  let member (key : String) : Json := (package.get? key).getD .null
  .object [
    ("name", .string name),
    ("description", member "description"),
    ("version", .string version),
    ("metadata", .object [
      ("authors", .ofStrings (people package)),
      ("license", member "license"),
      ("url", member "homepage")])]

/-- The project that a root package and a source of manifests describe. Icons are read from the
given directory. -/
def ofJson (directory : Path) (package manifests : Json) : Except ProjectFault Project := do
  let some name := package.getString? "name" | throw .noName
  let some text := package.getString? "version" | throw .noVersion
  let version ← (Version.parse text).mapError (.badVersion text)
  let common := (defaults name text package).merge ((manifests.get? "common").getD (.object []))
  let some descriptions := (manifests.get? "packs").bind Json.array? | throw .noPackList
  if descriptions.isEmpty then throw .noPacks
  let packs ← descriptions.mapM (Pack.load version directory common)
  return ⟨name, version, Pack.place name packs⟩

/-- The project that the files of its root package and of its manifests describe. -/
def load (d : Disk) (packageJson manifestSource : Path) : Except Fault Project := do
  let package ← Document.read d packageJson
  let manifests ← Document.read d manifestSource
  let directory := manifestSource.parent?.getD ⟨"."⟩
  (ofJson directory package manifests).mapError .project

end Project

end AddonBuild
