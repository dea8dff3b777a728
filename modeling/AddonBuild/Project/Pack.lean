import AddonBuild.Path.Clean
import AddonBuild.Project.Module

/-!
# Packs and projects

A project ships one or more packs. The kind of a pack follows from its modules, and the name of
its directory from the project, its kind and the packs of the same kind before it.
-/

namespace AddonBuild

/-- The kinds of packs that the host installs. -/
inductive Pack.Kind where
  | behavior
  | resource
  | skins
  | worldTemplate
deriving DecidableEq, Repr

/-- What a pack can depend on: another pack, or a script module of the host. -/
inductive Dependency.Target where
  | pack (uuid : Uuid)
  | hostModule (name : String)
deriving DecidableEq, Repr

/-- Something that a pack needs, in a certain version. -/
structure Dependency where
  target : Dependency.Target
  version : Version
deriving DecidableEq, Repr

/-- Who made a pack, under which terms and with which tools. -/
structure Metadata where
  authors : Option (List String)
  license : Option String
  generatedWith : List (String × List Version)
  url : Option String
deriving DecidableEq, Repr

/-- A pack as its description gives it. -/
structure Pack where
  name : String
  uuid : Uuid
  description : String
  version : Version
  icon : Option Path
  minEngineVersion : Option Version
  baseGameVersion : Option Version
  lockTemplateOptions : Option Bool
  modules : List Module
  dependencies : List Dependency
  capabilities : List String
  metadata : Metadata
  kind : Pack.Kind
deriving DecidableEq, Repr

/-- A pack with the directory that it has inside of an archive, if it has one of its own, and the
directory that it is installed in. -/
structure PlacedPack extends Pack where
  subDirectory : Option String
  installDirectory : String
deriving DecidableEq, Repr

/-- The packs that are built together. -/
structure Project where
  name : String
  version : Version
  packs : List PlacedPack
deriving DecidableEq, Repr

/-! ### Kinds -/

namespace Pack

/-- The name of a kind. -/
def Kind.name : Kind → String
  | behavior => "BehaviorPack"
  | resource => "ResourcePack"
  | skins => "SkinPack"
  | worldTemplate => "WorldTemplate"

/-- What tells the directories of packs of different kinds apart. -/
def Kind.suffix : Kind → String
  | behavior => "bp"
  | resource => "rp"
  | skins => "skins"
  | worldTemplate => "wt"

/-- The kind of pack that a module belongs to. -/
def Kind.ofModule (m : Module) : Kind :=
  match m.kind with
  | .resources | .clientData | .interface => resource
  | .script .. | .data => behavior
  | .worldTemplate => worldTemplate
  | .skinPack => skins

/-- The kind of pack that modules make up. The first one that does not carry skins decides. -/
def Kind.ofModules? : List Module → Option Kind
  | [] => none
  | m :: rest =>
    if m.kind = .skinPack then some ((ofModules? rest).getD skins) else some (ofModule m)

/-! ### Directories -/

/-- The name of the directory of the pack at an index, when there are several. The packs of one
kind are numbered unless there is only one. -/
def directoryName (project : String) (packs : List Pack) (index : Nat) (p : Pack) : String :=
  let stem := s!"{project}-{p.kind.suffix}"
  if packs.countP (·.kind = p.kind) = 1 then stem
  else s!"{stem}-{(packs.take index).countP (·.kind = p.kind)}"

/-- Give every pack its directory. A pack that is alone fills the whole archive. -/
def place (project : String) (packs : List Pack) : List PlacedPack :=
  match packs with
  | [only] => [{ toPack := only, subDirectory := none, installDirectory := project }]
  | packs => packs.zipIdx.map fun (p, index) =>
    let directory := directoryName project packs index p
    { toPack := p, subDirectory := some directory, installDirectory := directory }

end Pack

/-- The directory of a pack under a root that stands for the archive. -/
def PlacedPack.stagePath (p : PlacedPack) (root : Path) : Path :=
  match p.subDirectory with
  | some directory => root.child directory
  | none => root

namespace Project

/-- What the name of an archive ends in. -/
def archiveSuffix (p : Project) : String :=
  match p.packs with
  | [only] => if only.kind = .worldTemplate then ".mctemplate" else ".mcpack"
  | [] => ".mcpack"
  | _ => ".mcaddon"

/-- The file name of the archive that is distributed. -/
def archiveName (p : Project) : String :=
  s!"{p.name}-{p.version.text}{p.archiveSuffix}"

end Project

end AddonBuild
