import AddonBuild.Proofs.Json.Keys
import AddonBuild.Proofs.Project.Describing
import AddonBuild.Proofs.Project.Placing

/-!
# Packs over what is common to them

A pack is described by three layers: its own object, what is common to all packs, and what the root
package says. Every field is that of the first layer that has it. Only metadata and dependencies are
objects, and so are merged.
-/

namespace AddonBuild

open Json Json.Decoder

/-- A pack as layers of objects tell, the strongest one first. -/
structure Pack.DescribedBy (own : Version) (directory : Path) (layers : List Members)
    (pack : Pack) : Prop where
  name : first? "name" layers = some (.string pack.name)
  uuid : ∃ text, first? "uuid" layers = some (.string text) ∧ Uuid.parse text = some pack.uuid
  description : ∃ text?, Says string (first? "description" layers) text? ∧
    pack.description = text?.getD ""
  version : ∃ text, first? "version" layers = some (.string text) ∧ own.Denotes text pack.version
  icon : ∃ icon?, Says string (first? "icon" layers) icon? ∧
    pack.icon = icon?.map fun icon => directory.absolutize ⟨icon⟩
  minEngineVersion : ∃ text?, Says string (first? "min_engine_version" layers) text? ∧
    Option.Rel own.Denotes text? pack.minEngineVersion
  baseGameVersion : ∃ text?, Says string (first? "base_game_version" layers) text? ∧
    Option.Rel own.Denotes text? pack.baseGameVersion
  lockTemplateOptions : Says bool (first? "lock_template_options" layers) pack.lockTemplateOptions
  modules : ∃ descriptions, first? "modules" layers = some (.array descriptions) ∧
    List.Forall₂ (fun description m => ∃ members, description = .object members ∧
      Module.DescribedBy own pack.version members m) descriptions pack.modules
  dependencies : Dependency.ListedBy own (valuesOf "dependencies" layers) pack.dependencies
  capabilities : ∃ list?, Says (list string) (first? "capabilities" layers) list? ∧
    pack.capabilities = list?.getD []
  metadata : pack.metadata.DescribedBy own (valuesOf "metadata" layers)

namespace Pack

variable {own : Version} {directory : Path} {layers : List Members} {pack : Pack}

lemma Source.of_decode {members : Members} {source : Source}
    (h : decode (.object members) = .ok source) :
    required members "name" string = .ok source.name ∧
      required members "uuid" string = .ok source.uuid ∧
      optional members "description" string = .ok source.description ∧
      required members "version" string = .ok source.version ∧
      optional members "icon" string = .ok source.icon ∧
      optional members "min_engine_version" string = .ok source.minEngineVersion ∧
      optional members "base_game_version" string = .ok source.baseGameVersion ∧
      optional members "lock_template_options" bool = .ok source.lockTemplateOptions ∧
      required members "modules" (list any) = .ok source.modules ∧
      optional members "dependencies" any = .ok source.dependencies ∧
      optional members "capabilities" (list string) = .ok source.capabilities ∧
      optional members "metadata" Metadata.Source.decode = .ok source.metadata := by
  obtain ⟨taken, htaken, h⟩ := bind_eq_ok.mp h
  rw [members_object_eq_ok htaken] at h
  obtain ⟨name, hname, h⟩ := bind_eq_ok.mp h
  obtain ⟨uuid, huuid, h⟩ := bind_eq_ok.mp h
  obtain ⟨description, hdescription, h⟩ := bind_eq_ok.mp h
  obtain ⟨version, hversion, h⟩ := bind_eq_ok.mp h
  obtain ⟨icon, hicon, h⟩ := bind_eq_ok.mp h
  obtain ⟨minEngine, hminEngine, h⟩ := bind_eq_ok.mp h
  obtain ⟨baseGame, hbaseGame, h⟩ := bind_eq_ok.mp h
  obtain ⟨lock, hlock, h⟩ := bind_eq_ok.mp h
  obtain ⟨modules, hmodules, h⟩ := bind_eq_ok.mp h
  obtain ⟨dependencies, hdependencies, h⟩ := bind_eq_ok.mp h
  obtain ⟨capabilities, hcapabilities, h⟩ := bind_eq_ok.mp h
  obtain ⟨metadata, hmetadata, h⟩ := bind_eq_ok.mp h
  obtain rfl := Except.ok.inj h
  exact ⟨hname, huuid, hdescription, hversion, hicon, hminEngine, hbaseGame, hlock, hmodules,
    hdependencies, hcapabilities, hmetadata⟩

lemma rel_of_mapM {text? : Option String} {version? : Option Version}
    (h : text?.mapM own.read = .ok version?) : Option.Rel own.Denotes text? version? := by
  cases text? with
  | none =>
    obtain rfl := Except.ok.inj h
    exact .none
  | some text =>
    obtain ⟨version, hversion, rfl⟩ := map_eq_ok.mp h
    exact .some (Version.read_eq_ok.mp hversion)

lemma of_ofSource {source : Source} (h : ofSource own directory source = .ok pack) :
    own.Denotes source.version pack.version ∧
      List.Forall₂ (fun m loaded => Module.load own (source.moduleDefaults.merge m) = .ok loaded)
        source.modules pack.modules ∧
      pack.modules ≠ [] ∧
      Dependency.loadAll own source.name source.dependencies = .ok pack.dependencies ∧
      Metadata.load own (source.metadata.getD .empty) = .ok pack.metadata ∧
      Uuid.parse source.uuid = some pack.uuid ∧
      Option.Rel own.Denotes source.minEngineVersion pack.minEngineVersion ∧
      Option.Rel own.Denotes source.baseGameVersion pack.baseGameVersion ∧
      pack.name = source.name ∧ pack.description = source.description.getD "" ∧
      pack.icon = source.icon.map (fun icon => directory.absolutize ⟨icon⟩) ∧
      pack.lockTemplateOptions = source.lockTemplateOptions ∧
      pack.capabilities = source.capabilities.getD [] := by
  obtain ⟨version, hversion, h⟩ := bind_eq_ok.mp h
  obtain ⟨modules, hmodules, h⟩ := bind_eq_ok.mp h
  cases hkind : Kind.ofModules? modules with
  | none => rw [hkind] at h; cases h
  | some kind =>
    rw [hkind] at h
    obtain ⟨dependencies, hdependencies, h⟩ := bind_eq_ok.mp h
    obtain ⟨metadata, hmetadata, h⟩ := bind_eq_ok.mp h
    obtain ⟨uuid, huuid, h⟩ := bind_eq_ok.mp h
    obtain ⟨minEngine, hminEngine, h⟩ := bind_eq_ok.mp h
    obtain ⟨baseGame, hbaseGame, h⟩ := bind_eq_ok.mp h
    obtain rfl := Except.ok.inj h
    have hne : modules ≠ [] := by
      rintro rfl
      cases hkind
    exact ⟨Version.read_eq_ok.mp hversion, mapM_eq_ok.mp hmodules, hne, hdependencies, hmetadata,
      Uuid.read_eq_ok.mp huuid, rel_of_mapM hminEngine, rel_of_mapM hbaseGame, rfl, rfl, rfl, rfl,
      rfl⟩

/-- A pack that is read from merged objects is described by their layers. -/
lemma describedBy_of_ofSource (hlayers : ∀ layer ∈ layers, Distinct (.object layer))
    {members : Members} (hmerged : stacked? (layers.map .object) = some (.object members))
    {source : Source} (hsource : Source.decode (.object members) = .ok source)
    (h : ofSource own directory source = .ok pack) : pack.DescribedBy own directory layers := by
  have hlookup (key : String) : members.lookup key = stacked? (valuesOf key layers) := by
    have hget := get?_stacked? (List.forall_mem_map.mpr hlayers) hmerged key
    rwa [objectsAtop_map_object] at hget
  obtain ⟨hname, huuid, hdescription, hversion, hicon, hminEngine, hbaseGame, hlock, hmodules,
    hdependencies, hcapabilities, hmetadata⟩ := Source.of_decode hsource
  obtain ⟨hdenotes, hloaded, -, hneeded, htold, hparsed, hminRead, hbaseRead, hsame, htext, hplace,
    hflag, hlist⟩ := of_ofSource h
  have hstring {key text : String} (h : required members key string = .ok text) :
      first? key layers = some (.string text) := by
    obtain ⟨v, hv, hread⟩ := required_first? flat_string (hlookup key) h
    rw [hv, string_eq_ok.mp hread]
  obtain ⟨list, hlistFirst, hread⟩ := required_first? (flat_list any) (hlookup _) hmodules
  obtain rfl := list_any_eq_ok.mp hread
  have hdistinct : Distinct (.array source.modules) := by
    rw [← head?_valuesOf] at hlistFirst
    exact distinct_valuesOf hlayers _ _ (List.mem_of_head? hlistFirst)
  exact {
    name := hsame ▸ hstring hname
    uuid := ⟨source.uuid, hstring huuid, hparsed⟩
    description := ⟨_, says_first? flat_string (hlookup _) hdescription, htext⟩
    version := ⟨source.version, hstring hversion, hdenotes⟩
    icon := ⟨_, says_first? flat_string (hlookup _) hicon, hplace⟩
    minEngineVersion := ⟨_, says_first? flat_string (hlookup _) hminEngine, hminRead⟩
    baseGameVersion := ⟨_, says_first? flat_string (hlookup _) hbaseGame, hbaseRead⟩
    lockTemplateOptions := hflag ▸ says_first? flat_bool (hlookup _) hlock
    modules := ⟨source.modules, hlistFirst, forall₂_of_mem hloaded fun description hmem m _ hm =>
      Module.exists_describedBy (hdistinct.of_mem_array hmem) hdenotes hm⟩
    dependencies := Dependency.listedBy_of_loadAll (distinct_valuesOf hlayers _)
      (hlookup _ ▸ says_of_optional hdependencies) hneeded
    capabilities := ⟨_, says_first? (flat_list string) (hlookup _) hcapabilities, hlist⟩
    metadata := Metadata.describedBy_of_load (Metadata.Source.describedBy_of_decode
      (distinct_valuesOf hlayers _) (hlookup _ ▸ says_of_optional hmetadata)) htold }

lemma modules_ne_nil_of_load {common description : Json}
    (h : load own directory common description = .ok pack) : pack.modules ≠ [] := by
  obtain ⟨source, -, h⟩ := bind_eq_ok.mp h
  exact (of_ofSource h).2.2.1

lemma map_toPack_place (project : String) (packs : List Pack) :
    (place project packs).map PlacedPack.toPack = packs := by
  by_cases hone : packs.length = 1
  · obtain ⟨only, rfl⟩ := List.length_eq_one_iff.mp hone
    rfl
  · rw [place_eq hone, List.map_map]
    exact List.zipIdx_map_fst 0 packs

end Pack

namespace Project

lemma exists_defaults (name version : String) {package : Json} (h : package.Distinct) :
    ∃ base, defaults name version package = .object base ∧ Distinct (.object base) := by
  have hmember (key : String) : Distinct ((package.get? key).getD .null) := by
    cases hget : package.get? key with
    | none => exact .null
    | some value => exact h.get? hget
  have hauthors : Distinct (.ofStrings (people package)) :=
    .array (List.forall_mem_map.mpr fun text _ => .string text)
  refine ⟨_, rfl, .object (by simp) ?_⟩
  simp only [List.forall_mem_cons]
  refine ⟨.string _, hmember _, .string _, .object (by simp) ?_, nofun⟩
  simp only [List.forall_mem_cons]
  exact ⟨hauthors, hmember _, hmember _, nofun⟩

lemma distinct_common {manifests : Json} (h : manifests.Distinct) {common : Members}
    (hcommon : (manifests.get? "common").getD (.object []) = .object common) :
    Distinct (.object common) := by
  rw [← hcommon]
  cases hget : manifests.get? "common" with
  | none => exact .object List.nodup_nil nofun
  | some value => exact h.get? hget

/-- A project that is loaded has packs with modules in the order of its descriptions. Every pack
that is described by an object has each field from there if it is there, or else from what is common
to all packs, or else from the root package; its modules have its version unless they have their
own; and its dependencies and its metadata are merged, if they are objects, with the objects behind
them. -/
theorem load_describedBy {d : Disk} {packageJson manifestSource : Path} {p : Project}
    (h : load d packageJson manifestSource = .ok p) :
    ∃ package manifests text base descriptions,
      Document.read d packageJson = .ok package ∧ Document.read d manifestSource = .ok manifests ∧
      package.getString? "name" = some p.name ∧ package.getString? "version" = some text ∧
      Version.parse text = .ok p.version ∧ defaults p.name text package = .object base ∧
      manifests.get? "packs" = some (.array descriptions) ∧
      p.packs ≠ [] ∧ (∀ pack ∈ p.packs, pack.modules ≠ []) ∧
      ∀ common, (manifests.get? "common").getD (.object []) = .object common →
        List.Forall₂ (fun description pack => ∀ own, description = .object own →
          pack.toPack.DescribedBy p.version (manifestSource.parent?.getD ⟨"."⟩)
            [own, common, base]) descriptions p.packs := by
  obtain ⟨package, hpackage, h⟩ := bind_eq_ok.mp h
  obtain ⟨manifests, hmanifests, h⟩ := bind_eq_ok.mp h
  obtain ⟨text, descriptions, packs, hname, htext, hversion, hlist, hne, hpacks, hplace⟩ :=
    of_ofJson (mapError_eq_ok.mp h)
  obtain ⟨value, hget, harray⟩ := Option.bind_eq_some_iff.mp hlist
  obtain rfl : value = .array descriptions := by
    cases value with
    | array items => exact congrArg Json.array (Option.some.inj harray)
    | _ => cases harray
  have hread := Document.distinct_of_read hmanifests
  obtain ⟨base, hdefaults, hbase⟩ :=
    exists_defaults p.name text (Document.distinct_of_read hpackage)
  have hplaced : packs = p.packs.map PlacedPack.toPack := by
    rw [hplace, Pack.map_toPack_place]
  refine ⟨package, manifests, text, base, descriptions, hpackage, hmanifests, hname, htext,
    hversion, hdefaults, hget, ?_, ?_, fun common hcommon => ?_⟩
  · intro hnil
    rw [hplaced, hnil] at hpacks
    cases hpacks
    exact hne rfl
  · intro pack hpack
    have hmem : pack.toPack ∈ packs := hplaced ▸ List.mem_map_of_mem hpack
    obtain ⟨description, -, hload⟩ := exists_of_mem_right hpacks hmem
    exact Pack.modules_ne_nil_of_load hload
  · rw [hplaced, List.forall₂_map_right_iff] at hpacks
    refine forall₂_of_mem hpacks fun description hdescription pack _ hload own hown => ?_
    subst hown
    obtain ⟨source, hsource, hload⟩ := bind_eq_ok.mp hload
    rw [hcommon] at hsource
    -- merging looks keys up, so that each layer has to have them once
    have hlayers : ∀ layer ∈ [own, common, base], Distinct (.object layer) := by
      simp only [List.forall_mem_cons]
      exact ⟨(hread.get? hget).of_mem_array hdescription, distinct_common hread hcommon, hbase,
        nofun⟩
    have hstacked : stacked? ([own, common, base].map .object) =
        some (((Json.object base).merge (.object common)).merge (.object own)) := rfl
    obtain ⟨members, hmembers⟩ := exists_members_of_stacked? hstacked
    rw [hmembers] at hstacked
    rw [hdefaults, hmembers] at hsource
    exact Pack.describedBy_of_ofSource hlayers hstacked (mapError_eq_ok.mp hsource) hload

/-! ### Described projects -/

/-- A root package with an author, beside a source of manifests. -/
def describedDisk (manifests : String) : Disk where
  entries := [
    (["manifest.json"], .file manifests.toUTF8),
    (["package.json"],
      .file "\x7b\"name\":\"x\",\"version\":\"1.0.0\",\"author\":\"A\"\x7d".toUTF8)]
  sorted := List.pairwise_pair.mpr (by decide : ["manifest.json"] < ["package.json"])
  rooted := by simp [IsDirectoryIn]

/-- The description of a module. -/
def plainModule : String :=
  "\x7b\"type\":\"data\",\"uuid\":\"00000000000000000000000000000000\",\"include\":\"*\"\x7d"

/-- The description of a pack that says its license. -/
def licensedPack : String :=
  "\x7b\"uuid\":\"00000000000000000000000000000000\",\"metadata\":\x7b\"license\":\"L\"\x7d," ++
    "\"modules\":[" ++ plainModule ++ "]\x7d"

/-- A source with one pack, over what is common to all packs. -/
def sharedText (common : String) : String :=
  "\x7b\"common\":" ++ common ++ ",\"packs\":[" ++ licensedPack ++ "]\x7d"

/-- A source with one pack, whose fields are listed in their order. -/
def listedText : String :=
  "\x7b\"packs\":[[\"x\",\"00000000000000000000000000000000\",null,\"self\"," ++
    "null,null,null,null,[" ++ plainModule ++ "],null,null,\x7b\"license\":\"L\"\x7d]]\x7d"

/-- The authors of the packs that a source describes. -/
def authorsOf (manifests : String) : Option (List (Option (List String))) :=
  (load (describedDisk manifests) ⟨"/package.json"⟩ ⟨"/manifest.json"⟩).toOption.map fun p =>
    p.packs.map fun pack => pack.metadata.authors

/-- The author of the root package is that of a pack with metadata, unless null stands between the
two or the fields of the pack are listed in their order. -/
theorem authorsOf_hidden :
    authorsOf (sharedText "\x7b\"version\":\"self\"\x7d") = some [some ["A"]] ∧
    authorsOf (sharedText "\x7b\"version\":\"self\",\"metadata\":null\x7d") = some [none] ∧
    authorsOf listedText = some [none] := by
  decide +kernel

/-- A pack takes its version from what is common to all packs. -/
theorem load_describedBy_shared : ∃ p pack own common base,
    load (describedDisk (sharedText "\x7b\"version\":\"self\"\x7d")) ⟨"/package.json"⟩
        ⟨"/manifest.json"⟩ = .ok p ∧
      pack ∈ p.packs ∧ pack.toPack.DescribedBy p.version ⟨"/"⟩ [own, common, base] := by
  generalize hdisk : describedDisk (sharedText "\x7b\"version\":\"self\"\x7d") = d
  obtain ⟨p, hp⟩ : ∃ p, (load d ⟨"/package.json"⟩ ⟨"/manifest.json"⟩).toOption = some p :=
    Option.isSome_iff_exists.mp (hdisk ▸ by decide +kernel)
  have hobjects : (Document.read d ⟨"/manifest.json"⟩).toOption.any (fun manifests =>
      ((manifests.get? "common").bind object?).isSome ∧
        (((manifests.get? "packs").bind array?).bind fun descriptions =>
          descriptions.head?.bind object?).isSome) = true := by
    rw [← hdisk]
    decide +kernel
  have hload := toOption_eq_some.mp hp
  obtain ⟨package, manifests, text, base, descriptions, -, hmanifests, -, -, -, -, hpacks, -, -,
    hlayered⟩ := load_describedBy hload
  rw [hmanifests] at hobjects
  obtain ⟨hcommon, hown⟩ : ((manifests.get? "common").bind object?).isSome = true ∧
      (((manifests.get? "packs").bind array?).bind fun descriptions =>
        descriptions.head?.bind object?).isSome = true := of_decide_eq_true hobjects
  obtain ⟨common, hcommon⟩ := Option.isSome_iff_exists.mp hcommon
  obtain ⟨value, hget, hobject⟩ := Option.bind_eq_some_iff.mp hcommon
  obtain rfl := object?_eq_some.mp hobject
  rw [hpacks] at hown
  change (descriptions.head?.bind object?).isSome = true at hown
  obtain ⟨own, hown⟩ := Option.isSome_iff_exists.mp hown
  obtain ⟨description, hfirst, hobject⟩ := Option.bind_eq_some_iff.mp hown
  obtain rfl := object?_eq_some.mp hobject
  obtain ⟨rest, rfl⟩ := List.head?_eq_some_iff.mp hfirst
  obtain ⟨pack, others, hdescribed, -, hall⟩ :=
    List.forall₂_cons_left_iff.mp (hlayered common (by rw [hget]; rfl))
  exact ⟨p, pack, own, common, base, hload, hall ▸ List.mem_cons_self, hdescribed own rfl⟩

end Project

end AddonBuild
