import AddonBuild.Proofs.Json.Keys
import AddonBuild.Proofs.Vendor.Dependencies
import AddonBuild.Proofs.Vendor.Exports

/-!
# Subpaths and conditions

What a package exports is what its description says, pair by pair, so the keys of the exports are
subpaths just if the description names subpaths. Conditions, in the place of a subpath or below one,
are refused, unless all of them are in the place of subpaths, name files, and stand in a description
of modules.
-/

namespace AddonBuild

namespace Package

variable {package key file subpath : String} {description : Json} {members : Json.Members}
  {exports : List (String × String)}

/-! ### What a description says -/

/-- Whether a key stands for the package itself or for something below it. -/
def IsSubpath (key : String) : Prop :=
  key = whole ∨ ∃ below, key = "./" ++ below

/-- Whether a description gives a file for a key. -/
inductive Gives (description : Json) : String → String → Prop where
  | target {members : Json.Members} {key file : String}
      (hexports : description.get? "exports" = some (.object members))
      (htarget : members.lookup key = some (.string file)) : Gives description key file
  | single {file : String} (hexports : description.get? "exports" = some (.string file)) :
      Gives description whole file
  | entry {file : String} (hexports : exportsMember? description = none)
      (hmodule : description.getString? "module" = some file) : Gives description whole file

/-- Whether all keys of the exports that a description lists are subpaths. -/
def NamesSubpaths (description : Json) : Prop :=
  ∀ members, description.get? "exports" = some (.object members) →
    ∀ key ∈ Json.Members.keys members, IsSubpath key

/-- Whether a description lists exports by conditions: in the place of a subpath, or below one. -/
def HasConditions (description : Json) : Prop :=
  ∃ members, description.get? "exports" = some (.object members) ∧
    ∃ member ∈ members, ¬ IsSubpath member.1 ∨ ∃ conditions, member.2 = .object conditions

/-- Whether every member of the exports that a description lists is a text. -/
def IsFlat (description : Json) : Prop :=
  ∀ members, description.get? "exports" = some (.object members) →
    ∀ member ∈ members, ∃ file, member.2 = .string file

/-- Whether a description is one of modules. -/
def IsModular (description : Json) : Prop :=
  (∃ file, description.getString? "module" = some file) ∨
    description.getString? "type" = some "module"

/-! ### Targets -/

/-- The targets that a list of exports was read from. -/
def targets (exports : List (String × String)) : Json.Members :=
  exports.map fun item => (item.1, .string item.2)

lemma mem_targets : (key, Json.string file) ∈ targets exports ↔ (key, file) ∈ exports := by
  constructor
  · intro h
    obtain ⟨item, hitem, heq⟩ := List.mem_map.mp h
    obtain ⟨hkey, hfile⟩ := Prod.mk.inj heq
    obtain rfl := hkey
    obtain rfl := Json.string.inj hfile
    exact hitem
  · intro h
    exact List.mem_map.mpr ⟨_, h, rfl⟩

/-- Targets are listed as they are, if they all are texts; otherwise one that is none is refused. -/
lemma mapM_exportTarget (package : String) (members : Json.Members) :
    (∃ exports, members = targets exports ∧
      members.mapM (exportTarget package) = .ok exports) ∨
    ∃ member ∈ members, (∀ file, member.2 ≠ .string file) ∧
      members.mapM (exportTarget package) =
        .error (.unsupportedFormat package (.targetNotString member.1)) := by
  induction members with
  | nil => exact .inl ⟨[], rfl, rfl⟩
  | cons member rest ih =>
    obtain ⟨key, value⟩ := member
    cases value with
    | string file =>
      have hfirst : exportTarget package (key, .string file) = .ok (key, file) := rfl
      rcases ih with ⟨exports, rfl, hrest⟩ | ⟨bad, hbad, hnone, hrest⟩
      · refine .inl ⟨(key, file) :: exports, rfl, ?_⟩
        rw [List.mapM_cons, hfirst, hrest]
        rfl
      · refine .inr ⟨bad, List.mem_cons_of_mem _ hbad, hnone, ?_⟩
        rw [List.mapM_cons, hfirst, hrest]
        rfl
    | null | bool | number | array | object =>
      exact .inr ⟨_, List.mem_cons_self, nofun, rfl⟩

lemma listedExports_object_eq_ok (h : listedExports package (.object members) = .ok exports) :
    members = targets exports := by
  rcases mapM_exportTarget package members with ⟨found, hmembers, hok⟩ | ⟨_, _, _, herror⟩
  · obtain rfl := Except.ok.inj (hok.symm.trans h)
    exact hmembers
  · cases herror.symm.trans h

/-! ### Exports of a description -/

lemma exportsMember?_of_object (h : description.get? "exports" = some (.object members)) :
    exportsMember? description = some (.object members) := by
  rw [exportsMember?, h]

lemma exportsMember?_eq_some {listed : Json} (h : exportsMember? description = some listed) :
    description.get? "exports" = some listed ∧ listed ≠ .null := by
  unfold exportsMember? at h
  split at h
  · cases h
  · next hne =>
    refine ⟨h, ?_⟩
    rintro rfl
    exact hne h

/-- Where exports come from: a list of them in a description of modules, or else its one module. -/
lemma exports?_eq_ok (h : exports? package description = .ok (some exports)) :
    (∃ listed, exportsMember? description = some listed ∧ IsModular description ∧
      listedExports package listed = .ok exports) ∨
    ∃ file, exportsMember? description = none ∧ description.getString? "module" = some file ∧
      exports = [(whole, file)] := by
  unfold exports? at h
  dsimp only at h
  split at h
  · next file listed hmodule hlisted =>
    obtain ⟨found, hfound, hexports⟩ := map_eq_ok.mp h
    obtain rfl := Option.some.inj hexports
    exact .inl ⟨listed, hlisted, .inl ⟨file, hmodule⟩, hfound⟩
  · next file hmodule hnone =>
    obtain rfl := Option.some.inj (Except.ok.inj h)
    exact .inr ⟨file, hnone, hmodule, rfl⟩
  · next listed _ hlisted =>
    split_ifs at h with htype
    obtain ⟨found, hfound, hexports⟩ := map_eq_ok.mp h
    obtain rfl := Option.some.inj hexports
    exact .inl ⟨listed, hlisted, .inr (by simpa using htype), hfound⟩
  · split_ifs at h
    cases h

/-- What a description without modules lists is refused. -/
lemma exports?_of_not_isModular {listed : Json} (hlisted : exportsMember? description = some listed)
    (hmodular : ¬ IsModular description) :
    exports? package description = .error (.unsupportedFormat package .noModuleEntry) := by
  obtain ⟨hmodule, htype⟩ := not_or.mp hmodular
  have hmodule : description.getString? "module" = none :=
    Option.eq_none_iff_forall_ne_some.mpr (not_exists.mp hmodule)
  have htype : (description.getString? "type" == some "module") = false := by simpa using htype
  rw [exports?, hmodule, hlisted, htype]
  rfl

/-- What a description of modules lists is read as it is. -/
lemma exports?_of_isModular {listed : Json} (hlisted : exportsMember? description = some listed)
    (hmodular : IsModular description) :
    exports? package description = (listedExports package listed).map some := by
  rcases hmodular with ⟨file, hmodule⟩ | htype
  · rw [exports?, hmodule, hlisted]
  · rw [exports?, hlisted, htype]
    cases description.getString? "module" <;> rfl

/-- The exports of a description are what it gives, each key with its file, and they are exports of
subpaths just if it names subpaths. -/
structure IsExportMap (description : Json) (exports : List (String × String)) : Prop where
  gives : ∀ key file, (key, file) ∈ exports ↔ Gives description key file
  subpaths : (∀ item ∈ exports, IsSubpath item.1) ↔ NamesSubpaths description

lemma isExportMap_of_object (hdistinct : description.Distinct)
    (h : description.get? "exports" = some (.object (targets exports))) :
    IsExportMap description exports := by
  have hkeys : (targets exports).keys.Nodup := (hdistinct.get? h).keys
  constructor
  · intro key file
    constructor
    · intro hitem
      exact .target h (Json.lookup_of_mem hkeys (mem_targets.mpr hitem))
    · intro hgives
      cases hgives with
      | target hexports htarget =>
        obtain rfl := Json.object.inj (Option.some.inj (h.symm.trans hexports))
        exact mem_targets.mp (Json.mem_of_lookup htarget)
      | single hexports => cases h.symm.trans hexports
      | entry hexports => cases (exportsMember?_of_object h).symm.trans hexports
  · have hall : (targets exports).keys = exports.map Prod.fst := by
      simp [targets, Json.Members.keys]
    constructor
    · intro hsubpaths members hmembers key hkey
      obtain rfl := Json.object.inj (Option.some.inj (h.symm.trans hmembers))
      obtain ⟨item, hitem, rfl⟩ := List.mem_map.mp (hall ▸ hkey)
      exact hsubpaths item hitem
    · intro hnames item hitem
      exact hnames _ h item.1 (hall ▸ List.mem_map_of_mem hitem)

/-- One export is that of the package itself. -/
lemma isExportMap_singleton (hgives : ∀ key found, Gives description key found ↔
    key = whole ∧ found = file)
    (hexports : ∀ members, description.get? "exports" ≠ some (.object members)) :
    IsExportMap description [(whole, file)] := by
  constructor
  · intro key found
    rw [hgives, List.mem_singleton, Prod.mk.injEq]
  · refine iff_of_true (List.forall_mem_singleton.mpr (.inl rfl)) ?_
    exact fun members h => absurd h (hexports members)

lemma isExportMap_of_exports? (hdistinct : description.Distinct)
    (h : exports? package description = .ok (some exports)) : IsExportMap description exports := by
  -- without an exports member the module entry stands for the package itself
  rcases exports?_eq_ok h with ⟨listed, hlisted, -, hexports⟩ | ⟨file, hnone, hmodule, rfl⟩
  · obtain ⟨hget, -⟩ := exportsMember?_eq_some hlisted
    cases listed with
    | object members =>
      obtain rfl := listedExports_object_eq_ok hexports
      exact isExportMap_of_object hdistinct hget
    | string file =>
      obtain rfl := Except.ok.inj hexports
      refine isExportMap_singleton (fun key found => ?_) fun members hmembers => ?_
      · constructor
        · intro hgives
          cases hgives with
          | target hexports => cases hget.symm.trans hexports
          | single hexports => cases hget.symm.trans hexports; exact ⟨rfl, rfl⟩
          | entry hexports => cases hlisted.symm.trans hexports
        · rintro ⟨rfl, rfl⟩
          exact .single hget
      · cases hget.symm.trans hmembers
    | null | bool | number | array => cases hexports
  · refine isExportMap_singleton (fun key found => ?_) fun members hmembers => ?_
    · constructor
      · intro hgives
        cases hgives with
        | target hexports => cases hnone.symm.trans (exportsMember?_of_object hexports)
        | single hexports =>
          rw [exportsMember?, hexports] at hnone
          cases hnone
        | entry _ hfound => cases hmodule.symm.trans hfound; exact ⟨rfl, rfl⟩
      · rintro ⟨rfl, rfl⟩
        exact .entry hnone hmodule
    · cases hnone.symm.trans (exportsMember?_of_object hmembers)

/-! ### Conditions -/

/-- Conditions are refused, just if some target is no text or the description is not one of
modules. -/
lemma exports?_of_hasConditions (h : HasConditions description) (package : String) :
    (∃ fault, exports? package description = .error (.unsupportedFormat package fault)) ↔
      ¬ (IsFlat description ∧ IsModular description) := by
  obtain ⟨members, hget, -⟩ := h
  have hlisted := exportsMember?_of_object hget
  by_cases hmodular : IsModular description
  · rw [exports?_of_isModular hlisted hmodular, and_iff_left hmodular]
    rcases mapM_exportTarget package members with ⟨exports, rfl, hok⟩ | ⟨bad, hbad, hnone, herror⟩
    · have hflat : IsFlat description := by
        intro found hfound member hmember
        obtain rfl := Json.object.inj (Option.some.inj (hget.symm.trans hfound))
        obtain ⟨item, -, rfl⟩ := List.mem_map.mp hmember
        exact ⟨item.2, rfl⟩
      refine iff_of_false ?_ (not_not_intro hflat)
      rintro ⟨fault, hfault⟩
      rw [listedExports, hok] at hfault
      cases hfault
    · refine iff_of_true ⟨.targetNotString bad.1, ?_⟩ fun hflat => ?_
      · rw [listedExports, herror]
        rfl
      · obtain ⟨file, hfile⟩ := hflat members hget bad hbad
        exact hnone file hfile
  · refine iff_of_true ⟨_, exports?_of_not_isModular hlisted hmodular⟩ ?_
    exact fun h => hmodular h.2

/-! ### Specifiers of subpaths -/

/-- A subpath is imported by the name of the package, followed by what is below it. -/
lemma specifier_of_isSubpath (package : String) (h : IsSubpath subpath) :
    specifier package subpath = package ∨
      ∃ below, subpath = "./" ++ below ∧ specifier package subpath = package ++ "/" ++ below := by
  rcases h with rfl | ⟨below, rfl⟩
  · exact .inl rfl
  · have hwhole : ("./" ++ below : String) ≠ whole := by
      intro h
      have hlist := congrArg String.toList h
      rw [String.toList_append] at hlist
      cases hlist
    have hstart : Text.startsWith "./" ("./" ++ below) = true := by
      rw [Path.startsWith_iff, String.toList_append]
      exact ⟨_, rfl⟩
    have hbelow : (Text.dropLead? "./" ("./" ++ below)).getD ("./" ++ below) = below := by
      rw [Text.dropLead?, if_pos hstart, Option.getD_some, String.toList_append, List.drop_left,
        String.ofList_toList]
    rw [specifier, if_neg hwhole, hbelow]
    split_ifs with hempty
    · exact .inl rfl
    · exact .inr ⟨below, rfl, rfl⟩

end Package

namespace Vendor

open Package

lemma exists_export_of_mem_aliases {v : Vendor} {root : Path} {aliases : Aliases}
    (h : v.aliases root = .ok aliases) {a : String × List Candidate} (ha : a ∈ aliases) :
    ∃ p ∈ v.packages, ∃ item ∈ p.exports, a.1 = specifier p.name item.1 := by
  obtain ⟨e, hexport, halias⟩ := exists_of_mem_right (mapM_eq_ok.mp h) ha
  obtain ⟨p, hp, hmap⟩ := List.mem_flatMap.mp hexport
  obtain ⟨item, hitem, rfl⟩ := List.mem_map.mp hmap
  obtain ⟨_, -, rfl⟩ := exportAlias_eq_ok halias
  exact ⟨p, hp, item, hitem, rfl⟩

/-- The exports that are read from a description are what it gives, and are those of subpaths just
if it names subpaths; conditions are refused, but for flat ones of modules. So it is with all
packages that are recorded, and with the aliases that are made of their exports. -/
theorem isExportMap_of_load (text : List UInt8) (package : String) (d : Disk) (file : Path)
    (exclude : List String) :
    (∀ description, Json.parse text = .ok description →
      (∀ exports, exports? package description = .ok (some exports) →
        IsExportMap description exports) ∧
      (HasConditions description →
        ((∃ fault, exports? package description = .error (.unsupportedFormat package fault)) ↔
          ¬ (IsFlat description ∧ IsModular description)))) ∧
    ∀ v, load d file exclude = .ok v →
      (∀ p ∈ v.packages, ∃ description, Document.read d p.manifest = .ok description ∧
        IsExportMap description p.exports ∧
        (HasConditions description → IsFlat description ∧ IsModular description)) ∧
      ∀ root aliases, v.aliases root = .ok aliases → ∀ a ∈ aliases,
        ∃ p ∈ v.packages, ∃ item ∈ p.exports, a.1 = specifier p.name item.1 ∧
          (IsSubpath item.1 → a.1 = p.name ∨
            ∃ below, item.1 = "./" ++ below ∧ a.1 = p.name ++ "/" ++ below) := by
  refine ⟨fun description hparse => ⟨fun exports hexports => ?_, fun h => ?_⟩,
    fun v hload => ⟨fun p hp => ?_, fun root aliases haliases a ha => ?_⟩⟩
  · exact isExportMap_of_exports? (Json.distinct_of_parse hparse) hexports
  · exact exports?_of_hasConditions h package
  · obtain ⟨-, -, description, hread, hexports⟩ := of_mem_packages hload hp
    refine ⟨description, hread,
      isExportMap_of_exports? (Document.distinct_of_read hread) hexports, fun h => ?_⟩
    by_contra hrejected
    obtain ⟨fault, hfault⟩ := (exports?_of_hasConditions h p.name).mpr hrejected
    cases hexports.symm.trans hfault
  · obtain ⟨p, hp, item, hitem, hspecifier⟩ := exists_export_of_mem_aliases haliases ha
    refine ⟨p, hp, item, hitem, hspecifier, fun hsubpath => ?_⟩
    rw [hspecifier]
    exact specifier_of_isSubpath p.name hsubpath

/-- A project that needs a package with two subpaths. -/
def subpathDisk : Disk where
  entries := [
    (["node_modules"], .directory),
    (["node_modules", "a"], .directory),
    (["node_modules", "a", "package.json"],
      .file ("\x7b\"type\":\"module\",\"exports\":" ++
        "\x7b\".\":\"./i.js\",\"./x\":\"./x.js\"\x7d\x7d").toUTF8),
    (["package.json"], .file "\x7b\"dependencies\":\x7b\"a\":\"\"\x7d\x7d".toUTF8)]
  sorted := by decide
  rooted := by decide

/-- Its package. -/
def subpathPackage : Package where
  name := "a"
  directory := ⟨"/node_modules/a"⟩
  files := ["**"]
  exports := [(".", "./i.js"), ("./x", "./x.js")]

/-- Two subpaths of a package are recorded and imported by its name; conditions below a subpath are
refused. -/
theorem isExportMap_of_load_subpathDisk :
    (∃ text description, Json.parse text = .ok description ∧
      description = .object [("type", .string "module"),
        ("exports", .object [(".", .object [("import", .string "./a.js")])])] ∧
      ∃ fault, exports? "c" description = .error (.unsupportedFormat "c" fault)) ∧
    ∃ v aliases, load subpathDisk ⟨"package.json"⟩ [] = .ok v ∧
      v.packages = [subpathPackage] ∧
      v.aliases ⟨"/out"⟩ = .ok aliases ∧ aliases.map Prod.fst = ["a", "a/x"] ∧
      (∃ description, Document.read subpathDisk ⟨"/node_modules/a/package.json"⟩ = .ok description ∧
        IsExportMap description [(".", "./i.js"), ("./x", "./x.js")]) ∧
      ∀ a ∈ aliases, ∃ p ∈ v.packages, ∃ item ∈ p.exports, a.1 = specifier p.name item.1 := by
  constructor
  · have hparse : Json.parse ("\x7b\"type\":\"module\",\"exports\":" ++
        "\x7b\".\":\x7b\"import\":\"./a.js\"\x7d\x7d\x7d").toUTF8.data.toList =
        .ok (.object [("type", .string "module"),
          ("exports", .object [(".", .object [("import", .string "./a.js")])])]) := by
      with_unfolding_all rfl
    refine ⟨_, _, hparse, rfl, ?_⟩
    refine (((isExportMap_of_load _ "c" subpathDisk ⟨"package.json"⟩ []).1 _ hparse).2
      ⟨_, rfl, _, List.mem_cons_self, .inr ⟨_, rfl⟩⟩).mpr ?_
    rintro ⟨hflat, -⟩
    obtain ⟨file, hfile⟩ := hflat _ rfl _ List.mem_cons_self
    cases hfile
  · have hload : load subpathDisk ⟨"package.json"⟩ [] =
        .ok ⟨[subpathPackage]⟩ := by
      have hfollows : Follows subpathDisk ["patch-package"] [] ⟨"a", ⟨"/"⟩⟩
          (.recorded subpathPackage []) :=
        follow_eq_ok.mp (by with_unfolding_all rfl)
      have hvisits : Visits subpathDisk ["patch-package"] [] [⟨"a", ⟨"/"⟩⟩]
          [subpathPackage] :=
        .recorded hfollows .nil .nil
      refine load_eq_ok.mpr ⟨.object [("dependencies", .object [("a", .string "")])], ?_, hvisits⟩
      with_unfolding_all rfl
    have haliases : Vendor.aliases ⟨[subpathPackage]⟩ ⟨"/out"⟩ =
        .ok [("a", [⟨.exact "/out/a/i.js", .destination⟩]),
          ("a/x", [⟨.exact "/out/a/x.js", .destination⟩])] := by
      with_unfolding_all rfl
    obtain ⟨hpackages, hkeys⟩ := (isExportMap_of_load [] "" _ _ _).2 _ hload
    obtain ⟨description, hread, hmap, -⟩ := hpackages _ List.mem_cons_self
    refine ⟨_, _, hload, rfl, haliases, rfl, ⟨description, hread, hmap⟩, fun a ha => ?_⟩
    obtain ⟨p, hp, item, hitem, hspecifier, -⟩ := hkeys _ _ haliases a ha
    exact ⟨p, hp, item, hitem, hspecifier⟩

end Vendor

end AddonBuild
