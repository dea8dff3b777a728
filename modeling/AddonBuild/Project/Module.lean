import AddonBuild.Json.Decoder
import AddonBuild.Uuid
import AddonBuild.Version

/-!
# Modules of a pack

A module is one kind of content of a pack, with the globs of the files that belong to it. A module
of scripts names the script that is run first.
-/

namespace AddonBuild

/-- What a module carries. -/
inductive Module.Kind where
  | resources
  | script (language entry : String)
  | data
  | clientData
  | interface
  | worldTemplate
  | skinPack
deriving DecidableEq, Repr

/-- A part of a pack. Its globs are read from the source tree. -/
structure Module where
  description : String
  uuid : Uuid
  version : Version
  globs : List String
  kind : Module.Kind
deriving DecidableEq, Repr

namespace Module

/-- The word for a kind in descriptions and manifests. -/
def Kind.name : Kind → String
  | resources => "resources"
  | script .. => "script"
  | data => "data"
  | clientData => "client_data"
  | interface => "interface"
  | worldTemplate => "world_template"
  | skinPack => "skin_pack"

/-- The words for all kinds. -/
def Kind.names : List String :=
  ["resources", "script", "data", "client_data", "interface", "world_template", "skin_pack"]

/-- The script that is run first. -/
def entry? (m : Module) : Option String :=
  match m.kind with
  | .script _ entry => some entry
  | _ => none

/-! ### Reading -/

/-- A module as it is described, before its identifier and version are read. -/
structure Source where
  description : Option String
  uuid : String
  version : String
  globs : List String
  kind : Kind
deriving DecidableEq, Repr

open Json in
/-- One glob, or a list of them. -/
def globsDecoder : Decoder (List String)
  | .string glob => .ok [glob]
  | .array items =>
    match items.mapM string? with
    | some globs => .ok globs
    | none => .error (.noVariant "Include")
  | _ => .error (.noVariant "Include")

open Json in
/-- The kind that a word names. A script has its language and entry beside the word. -/
def Kind.decode (word : String) (members : Members) : Except Mismatch Kind :=
  match word with
  | "resources" => .ok .resources
  | "script" => do
    Decoder.checkMembers
      [("language", Decoder.check .string), ("entry", Decoder.check .string)] members
    let language ← Decoder.required members "language" .string
    let entry ← Decoder.required members "entry" .string
    return .script language entry
  | "data" => .ok .data
  | "client_data" => .ok .clientData
  | "interface" => .ok .interface
  | "world_template" => .ok .worldTemplate
  | "skin_pack" => .ok .skinPack
  | other => .error (.unknownVariant other names)

open Json in
/-- The module of a kind that the members of an object describe. -/
def Source.decode (word : String) (members : Members) : Except Mismatch Source := do
  Decoder.checkMembers [
    ("description", Decoder.check (.option .string)),
    ("uuid", Decoder.check .string),
    ("version", Decoder.check .string),
    ("include", Decoder.check globsDecoder)] members
  return {
    description := ← Decoder.optional members "description" .string
    uuid := ← Decoder.required members "uuid" .string
    version := ← Decoder.required members "version" .string
    globs := ← Decoder.required members "include" globsDecoder
    kind := ← Kind.decode word members }

end Module

end AddonBuild
