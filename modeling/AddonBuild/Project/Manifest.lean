import AddonBuild.Json.Basic
import AddonBuild.Project.Pack

/-!
# Manifests of packs

The host reads what a pack is from its manifest. Members without a value are left out.
-/

namespace AddonBuild

/-- A version in a manifest: three numbers, or the whole text if it has a pre-release label. -/
def Version.toJson (v : Version) : Json :=
  if v.pre.isEmpty then .array [.ofNat v.major, .ofNat v.minor, .ofNat v.patch]
  else .string v.text

/-- A member that is left out if it has no value. -/
def Json.memberOf {α : Type} (key : String) (value : Option α) (toJson : α → Json) : Json.Members :=
  match value with
  | some value => [(key, toJson value)]
  | none => []

/-- A member that is left out if it is an empty list. -/
def Json.memberOfList {α : Type} (key : String) (items : List α) (toJson : List α → Json) :
    Json.Members :=
  if items.isEmpty then [] else [(key, toJson items)]

/-- A module in a manifest. -/
def Module.manifest (m : Module) : Json :=
  let kind := match m.kind with
    | .script language entry => [("language", .string language), ("entry", .string entry)]
    | _ => []
  .object ([
    ("description", .string m.description),
    ("type", .string m.kind.name),
    ("uuid", .string m.uuid.text),
    ("version", m.version.toJson)] ++ kind)

/-- A dependency in a manifest. -/
def Dependency.manifest (d : Dependency) : Json :=
  let target := match d.target with
    | .pack uuid => ("uuid", .string uuid.text)
    | .hostModule name => ("module_name", .string name)
  .object [target, ("version", d.version.toJson)]

/-- The tools that made a pack, in a manifest. -/
def Metadata.toolsManifest (tools : List (String × List Version)) : Json :=
  .object (tools.map fun (name, versions) => (name, .ofStrings (versions.map Version.text)))

/-- The members of the metadata in a manifest. -/
def Metadata.manifest (m : Metadata) : Json.Members :=
  Json.memberOf "authors" m.authors Json.ofStrings
    ++ Json.memberOf "license" m.license .string
    ++ Json.memberOfList "generated_with" m.generatedWith toolsManifest
    ++ Json.memberOf "url" m.url .string

namespace Pack

/-- The header of a manifest. -/
def header (p : Pack) : Json :=
  .object ([
    ("name", .string p.name),
    ("uuid", .string p.uuid.text),
    ("description", .string p.description),
    ("version", p.version.toJson)]
    ++ Json.memberOf "min_engine_version" p.minEngineVersion Version.toJson
    ++ Json.memberOf "base_game_version" p.baseGameVersion Version.toJson
    ++ Json.memberOf "lock_template_options" p.lockTemplateOptions .bool)

/-- The manifest of a pack. -/
def manifest (p : Pack) : Json :=
  .object ([
    ("format_version", .ofNat 2),
    ("header", p.header),
    ("modules", .array (p.modules.map Module.manifest))]
    ++ Json.memberOfList "dependencies" p.dependencies (.array <| ·.map Dependency.manifest)
    ++ Json.memberOfList "capabilities" p.capabilities Json.ofStrings
    ++ Json.memberOfList "metadata" p.metadata.manifest .object)

end Pack

end AddonBuild
