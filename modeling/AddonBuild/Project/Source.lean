import AddonBuild.Json.Decoder

/-!
# Descriptions of packs

A pack as its description spells it out, once the defaults have been laid under it: every member
has the right type, but its text has not been read.
-/

namespace AddonBuild

/-- The metadata of a pack as described. -/
structure Metadata.Source where
  authors : Option (List String)
  license : Option String
  generatedWith : List (String × List String)
  url : Option String
deriving DecidableEq, Repr

/-- A pack as described. -/
structure Pack.Source where
  name : String
  uuid : String
  description : Option String
  version : String
  icon : Option String
  minEngineVersion : Option String
  baseGameVersion : Option String
  lockTemplateOptions : Option Bool
  modules : List Json
  dependencies : Option Json
  capabilities : Option (List String)
  metadata : Option Metadata.Source

namespace Metadata.Source

open Json Json.Decoder

/-- Metadata that say nothing. -/
def empty : Source := ⟨none, none, [], none⟩

/-- The form of metadata. -/
def form : Form where
  type := "struct MetadataSrc"
  fields := [
    ("authors", check (option (list string))),
    ("license", check (option string)),
    ("generated_with", check (map (list string))),
    ("url", check (option string))]
  defaulted := ["generated_with"]

/-- Metadata of a description. -/
def decode : Decoder Source := fun value => do
  let members ← form.members value
  return {
    authors := ← optional members "authors" (list string)
    license := ← optional members "license" string
    generatedWith := ← defaulted members "generated_with" (map (list string)) []
    url := ← optional members "url" string }

end Metadata.Source

namespace Pack.Source

open Json Json.Decoder

/-- The form of a pack. -/
def form : Form where
  type := "struct PackSrc"
  fields := [
    ("name", check string),
    ("uuid", check string),
    ("description", check (option string)),
    ("version", check string),
    ("icon", check (option string)),
    ("min_engine_version", check (option string)),
    ("base_game_version", check (option string)),
    ("lock_template_options", check (option bool)),
    ("modules", check (list any)),
    ("dependencies", check (option any)),
    ("capabilities", check (option (list string))),
    ("metadata", check (option Metadata.Source.decode))]
  defaulted := []

/-- A pack of a description. -/
def decode : Decoder Source := fun value => do
  let members ← form.members value
  return {
    name := ← required members "name" string
    uuid := ← required members "uuid" string
    description := ← optional members "description" string
    version := ← required members "version" string
    icon := ← optional members "icon" string
    minEngineVersion := ← optional members "min_engine_version" string
    baseGameVersion := ← optional members "base_game_version" string
    lockTemplateOptions := ← optional members "lock_template_options" bool
    modules := ← required members "modules" (list any)
    dependencies := ← optional members "dependencies" any
    capabilities := ← optional members "capabilities" (list string)
    metadata := ← optional members "metadata" Metadata.Source.decode }

end Pack.Source

end AddonBuild
