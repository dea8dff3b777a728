import AddonBuild.Project.Loading
import AddonBuild.Proofs.Json.Decoding

/-!
# What descriptions say

The parts of a pack in terms of the layers that describe it: its modules, which take the version of
the pack unless they have their own, its dependencies and its metadata. Wherever there is a version,
the word `self` denotes that of the project.
-/

namespace AddonBuild

open Json Json.Decoder

variable {own : Version} {text : String}

/-! ### Texts -/

/-- The version that a text denotes in a project of the version `own`. -/
def Version.Denotes (own : Version) (text : String) (version : Version) : Prop :=
  (text = selfWord ∧ version = own) ∨ (text ≠ selfWord ∧ parse text = .ok version)

lemma Version.read_eq_ok {version : Version} :
    own.read text = .ok version ↔ own.Denotes text version := by
  rw [read, Denotes]
  split_ifs with hself
  · simp [hself, eq_comm]
  · simp [hself, mapError_eq_ok]

lemma Version.Denotes.unique {version other : Version} (h : own.Denotes text version)
    (hother : own.Denotes text other) : version = other :=
  Except.ok.inj ((read_eq_ok.mpr h).symm.trans (read_eq_ok.mpr hother))

lemma Uuid.read_eq_ok {uuid : Uuid} : Uuid.read text = .ok uuid ↔ parse text = some uuid := by
  rw [read]
  cases parse text <;> simp

/-! ### Modules -/

/-- A module as the members of its description tell, in a pack of a given version. -/
structure Module.DescribedBy (own packVersion : Version) (members : Members) (m : Module) :
    Prop where
  description : ∃ text?, Says string (members.lookup "description") text? ∧
    m.description = text?.getD ""
  uuid : ∃ text, members.lookup "uuid" = some (.string text) ∧ Uuid.parse text = some m.uuid
  version : (members.lookup "version" = none ∧ m.version = packVersion) ∨
    ∃ text, members.lookup "version" = some (.string text) ∧ own.Denotes text m.version
  globs : ∃ value, members.lookup "include" = some value ∧ globsDecoder value = .ok m.globs
  kind : members.lookup "type" = some (.string m.kind.name)
  script : ∀ language entry, m.kind = .script language entry →
    members.lookup "language" = some (.string language) ∧
      members.lookup "entry" = some (.string entry)

namespace Module

variable {members : Members} {word : String} {kind : Kind} {m : Module} {packVersion : Version}

lemma Kind.name_of_decode {kind : Kind} (h : decode word members = .ok kind) :
    kind.name = word ∧ ∀ language entry, kind = .script language entry →
      members.lookup "language" = some (.string language) ∧
        members.lookup "entry" = some (.string entry) := by
  unfold decode at h
  split at h
  case h_2 =>
    obtain ⟨-, -, h⟩ := bind_eq_ok.mp h
    obtain ⟨language, hlanguage, h⟩ := bind_eq_ok.mp h
    obtain ⟨entry, hentry, h⟩ := bind_eq_ok.mp h
    obtain rfl := Except.ok.inj h
    refine ⟨rfl, ?_⟩
    rintro _ _ ⟨⟩
    exact ⟨required_string_eq_ok.mp hlanguage, required_string_eq_ok.mp hentry⟩
  case h_8 => cases h
  all_goals
    obtain rfl := Except.ok.inj h
    exact ⟨rfl, nofun⟩

lemma Source.of_decode {source : Source} (h : decode word members = .ok source) :
    Says string (members.lookup "description") source.description ∧
      members.lookup "uuid" = some (.string source.uuid) ∧
      members.lookup "version" = some (.string source.version) ∧
      (∃ value, members.lookup "include" = some value ∧ globsDecoder value = .ok source.globs) ∧
      Kind.decode word members = .ok source.kind := by
  rw [decode] at h
  obtain ⟨-, -, h⟩ := bind_eq_ok.mp h
  obtain ⟨description, hdescription, h⟩ := bind_eq_ok.mp h
  obtain ⟨uuid, huuid, h⟩ := bind_eq_ok.mp h
  obtain ⟨version, hversion, h⟩ := bind_eq_ok.mp h
  obtain ⟨globs, hglobs, h⟩ := bind_eq_ok.mp h
  obtain ⟨kind, hkind, h⟩ := bind_eq_ok.mp h
  obtain rfl := Except.ok.inj h
  exact ⟨says_of_optional hdescription, required_string_eq_ok.mp huuid,
    required_string_eq_ok.mp hversion, required_eq_ok.mp hglobs, hkind⟩

/-- A module that has a version is described by its object, whatever the version of the pack is. -/
lemma exists_describedBy_of_load {description : Json} (h : load own description = .ok m)
    (packVersion : Version) :
    ∃ members, description = .object members ∧ m.DescribedBy own packVersion members := by
  rw [load] at h
  cases hword : description.getString? "type" with
  | none => rw [hword] at h; cases h
  | some word =>
    obtain ⟨members, rfl, htype⟩ := getString?_eq_some.mp hword
    rw [hword] at h
    dsimp only at h
    split_ifs at h
    · cases h
    · obtain ⟨source, hsource, h⟩ := bind_eq_ok.mp h
      obtain ⟨uuid, huuid, h⟩ := bind_eq_ok.mp h
      obtain ⟨version, hversion, h⟩ := bind_eq_ok.mp h
      obtain rfl := Except.ok.inj h
      have hdecode : Source.decode word members = .ok source := mapError_eq_ok.mp hsource
      obtain ⟨hdescription, huuidText, hversionText, hglobs, hkind⟩ := Source.of_decode hdecode
      obtain ⟨hname, hscript⟩ := Kind.name_of_decode hkind
      refine ⟨members, rfl, ?_⟩
      exact {
        description := ⟨source.description, hdescription, rfl⟩
        uuid := ⟨source.uuid, huuidText, Uuid.read_eq_ok.mp huuid⟩
        version := .inr ⟨source.version, hversionText, Version.read_eq_ok.mp hversion⟩
        globs := hglobs
        kind := by rw [hname]; exact htype
        script := hscript }

/-- A description laid over the version of its pack has the version if it lacks one. -/
lemma lookup_of_merge_version {merged : Members} (hdistinct : Distinct (.object members))
    (h : merge (.object [("version", .string text)]) (.object members) = .object merged) :
    merged.lookup "version" = some ((members.lookup "version").getD (.string text)) ∧
      ∀ key ≠ "version", merged.lookup key = members.lookup key := by
  rw [merge_object] at h
  obtain rfl := Json.object.inj h
  refine ⟨?_, fun key hkey => ?_⟩
  · rw [lookup_mergeMembers hdistinct.keys]
    cases members.lookup "version" with
    | none => rfl
    | some above => exact congrArg some (merge_of_object?_lower rfl above)
  · have hnone : List.lookup key [("version", Json.string text)] = none := by
      rw [List.lookup_cons, beq_eq_false_iff_ne.mpr hkey]
      rfl
    rw [lookup_mergeMembers hdistinct.keys, hnone]
    cases members.lookup key with
    | none => rfl
    | some above => rw [Option.elim_some, mergedMember, hnone]; rfl

/-- A module takes the version of its pack unless it has its own. -/
lemma exists_describedBy {description : Json} (hdistinct : description.Distinct)
    (hversion : own.Denotes text packVersion)
    (h : load own (merge (.object [("version", .string text)]) description) = .ok m) :
    ∃ members, description = .object members ∧ m.DescribedBy own packVersion members := by
  obtain ⟨merged, hmerged, hdescribed⟩ := exists_describedBy_of_load h packVersion
  cases hobject : description.object? with
  | none =>
    rw [merge_of_object? hobject] at hmerged
    rw [hmerged] at hobject
    cases hobject
  | some members =>
    obtain rfl := object?_eq_some.mp hobject
    obtain ⟨hversions, hothers⟩ := lookup_of_merge_version hdistinct hmerged
    -- the version of the pack is merged under the description, so it shows where there is no other
    have hown : (members.lookup "version" = none ∧ m.version = packVersion) ∨
        ∃ text, members.lookup "version" = some (.string text) ∧ own.Denotes text m.version := by
      rcases hdescribed.version with ⟨hnone, -⟩ | ⟨found, hfound, hdenotes⟩
      · rw [hversions] at hnone
        cases hnone
      · rw [hversions, Option.some.injEq] at hfound
        cases hlookup : members.lookup "version" with
        | none =>
          rw [hlookup] at hfound
          obtain rfl := Json.string.inj hfound
          exact .inl ⟨rfl, hdenotes.unique hversion⟩
        | some value =>
          rw [hlookup] at hfound
          exact .inr ⟨found, congrArg some hfound, hdenotes⟩
    refine ⟨members, rfl, ?_⟩
    exact {
      description := hothers "description" (by decide) ▸ hdescribed.description
      uuid := hothers "uuid" (by decide) ▸ hdescribed.uuid
      version := hown
      globs := hothers "include" (by decide) ▸ hdescribed.globs
      kind := hothers "type" (by decide) ▸ hdescribed.kind
      script := hothers "language" (by decide) ▸ hothers "entry" (by decide) ▸ hdescribed.script }

end Module

/-! ### Dependencies -/

/-- A dependency as an object tells. -/
structure Dependency.DescribedBy (own : Version) (description : Json) (dependency : Dependency) :
    Prop where
  target : (∃ text uuid, description.getString? "uuid" = some text ∧
      Uuid.parse text = some uuid ∧ dependency.target = .pack uuid) ∨
    (description.getString? "uuid" = none ∧ ∃ name,
      description.getString? "module_name" = some name ∧ dependency.target = .hostModule name)
  version : ∃ text, description.getString? "version" = some text ∧
    own.Denotes text dependency.version

/-- Dependencies as the values of several layers list them, the strongest one first. -/
inductive Dependency.ListedBy (own : Version) : List Json → List Dependency → Prop where
  | absent : ListedBy own [] []
  | null (rest : List Json) : ListedBy own (.null :: rest) []
  | items {descriptions : List Json} {dependencies : List Dependency}
      (h : List.Forall₂ (DescribedBy own) descriptions dependencies) (rest : List Json) :
      ListedBy own (.array descriptions :: rest) dependencies
  | names {values : List Json} {dependencies : List Dependency}
      (hobject : objectsAtop values ≠ [])
      (h : List.Forall₂ (fun name dependency => dependency.target = .hostModule name ∧
        ∃ text, first? name (objectsAtop values) = some (.string text) ∧
          own.Denotes text dependency.version) (keysOf (objectsAtop values)) dependencies) :
      ListedBy own values dependencies

namespace Dependency

variable {dependency : Dependency} {dependencies : List Dependency} {values : List Json}

lemma loadVersion_eq_ok {version? : Option String} {version : Version} :
    loadVersion own version? = .ok version ↔
      ∃ text, version? = some text ∧ own.Denotes text version := by
  cases version? <;> simp [loadVersion, Version.read_eq_ok]

lemma describedBy_of_load {description : Json} (h : load own description = .ok dependency) :
    DescribedBy own description dependency := by
  obtain ⟨target, htarget, h⟩ := bind_eq_ok.mp h
  obtain ⟨version, hversion, h⟩ := bind_eq_ok.mp h
  obtain rfl := Except.ok.inj h
  refine ⟨?_, loadVersion_eq_ok.mp hversion⟩
  rw [Target.load] at htarget
  cases huuid : description.getString? "uuid" with
  | some text =>
    rw [huuid] at htarget
    obtain ⟨uuid, hread, rfl⟩ := map_eq_ok.mp htarget
    exact .inl ⟨text, uuid, rfl, Uuid.read_eq_ok.mp hread, rfl⟩
  | none =>
    rw [huuid] at htarget
    cases hname : description.getString? "module_name" with
    | some name =>
      rw [hname] at htarget
      exact .inr ⟨rfl, name, rfl, (Except.ok.inj htarget).symm⟩
    | none => rw [hname] at htarget; cases htarget

lemma of_loadNamed {item : String × Json} (h : loadNamed own item = .ok dependency) :
    dependency.target = .hostModule item.1 ∧ ∃ text, item.2 = .string text ∧
      own.Denotes text dependency.version := by
  obtain ⟨version, hversion, h⟩ := bind_eq_ok.mp h
  obtain rfl := Except.ok.inj h
  obtain ⟨text, htext, hdenotes⟩ := loadVersion_eq_ok.mp hversion
  exact ⟨rfl, text, string?_eq_some.mp htext, hdenotes⟩

/-- Dependencies that are listed by their names are those of all objects in front. -/
lemma forall₂_of_loadNamed (hdistinct : ∀ value ∈ values, Distinct value) {members : Members}
    (hvalues : stacked? values = some (.object members))
    (h : members.mapM (loadNamed own) = .ok dependencies) :
    List.Forall₂ (fun name dependency => dependency.target = .hostModule name ∧
      ∃ text, first? name (objectsAtop values) = some (.string text) ∧
        own.Denotes text dependency.version) (keysOf (objectsAtop values)) dependencies := by
  have hkeys := keys_of_stacked? hdistinct hvalues
  have hnodup := nodup_keysOf (distinct_objectsAtop hdistinct)
  rw [← hkeys] at hnodup ⊢
  rw [Members.keys, List.forall₂_map_left_iff]
  refine forall₂_of_mem (mapM_eq_ok.mp h) fun item hitem dependency _ hload => ?_
  obtain ⟨htarget, text, htext, hdenotes⟩ := of_loadNamed hload
  have hlookup : members.lookup item.1 = some (.string text) :=
    lookup_of_mem hnodup (htext ▸ hitem)
  have hfirst := get?_stacked? hdistinct hvalues item.1
  rw [get?_object, hlookup] at hfirst
  exact ⟨htarget, text, head?_valuesOf item.1 _ ▸ head?_of_stacked? hfirst.symm rfl, hdenotes⟩

lemma listedBy_of_loadAll (hdistinct : ∀ value ∈ values, Distinct value) {pack : String}
    {listed : Option Json} (hlisted : Says any (stacked? values) listed)
    (h : loadAll own pack listed = .ok dependencies) : ListedBy own values dependencies := by
  generalize hvalue : stacked? values = value? at hlisted
  cases hlisted with
  | absent =>
    obtain rfl := stacked?_eq_none.mp hvalue
    obtain rfl := Except.ok.inj h
    exact .absent
  | null =>
    obtain ⟨rest, rfl⟩ := exists_cons_of_stacked? hvalue rfl
    obtain rfl := Except.ok.inj h
    exact .null rest
  | @value listed found hany =>
    obtain rfl : listed = found := Except.ok.inj hany
    cases listed with
    | null =>
      obtain ⟨rest, rfl⟩ := exists_cons_of_stacked? hvalue rfl
      obtain rfl := Except.ok.inj h
      exact .null rest
    | array descriptions =>
      obtain ⟨rest, rfl⟩ := exists_cons_of_stacked? hvalue rfl
      exact .items ((mapM_eq_ok.mp h).imp fun _ _ => describedBy_of_load) rest
    | object members =>
      exact .names (objectsAtop_ne_nil hvalue) (forall₂_of_loadNamed hdistinct hvalue h)
    | bool | number | string => cases h

end Dependency

/-! ### Metadata -/

/-- Metadata as the values of several layers tell, the strongest one first. -/
inductive Metadata.Source.DescribedBy : List Json → Source → Prop where
  | absent : DescribedBy [] .empty
  | null (rest : List Json) : DescribedBy (.null :: rest) .empty
  | items {members : List Json} {source : Source} (h : decode (.array members) = .ok source)
      (rest : List Json) : DescribedBy (.array members :: rest) source
  | members {values : List Json} {source : Source} (hobject : objectsAtop values ≠ [])
      (authors : Says (list string) (first? "authors" (objectsAtop values)) source.authors)
      (license : Says string (first? "license" (objectsAtop values)) source.license)
      (url : Says string (first? "url" (objectsAtop values)) source.url)
      (generatedWith : ∀ tool, Option.Rel (fun value texts => list string value = .ok texts)
        (first? tool (objectsAtop (valuesOf "generated_with" (objectsAtop values))))
        (source.generatedWith.lookup tool)) :
      DescribedBy values source

/-- Metadata whose versions are read, with this tool among the tools. -/
structure Metadata.DescribedBy (own : Version) (values : List Json) (metadata : Metadata) :
    Prop where
  source : ∃ source, Source.DescribedBy values source ∧ metadata.authors = source.authors ∧
    metadata.license = source.license ∧ metadata.url = source.url ∧
    ∀ tool ≠ Tool.name, Option.Rel (List.Forall₂ own.Denotes)
      (source.generatedWith.lookup tool) (metadata.generatedWith.lookup tool)
  tool : metadata.generatedWith.lookup Tool.name = some [Tool.version]

namespace Metadata

lemma lookup_setTool (tool : String) (versions : List Version)
    (tools : List (String × List Version)) (name : String) :
    (setTool tool versions tools).lookup name =
      if name = tool then some versions else tools.lookup name := by
  induction tools with
  | nil => exact lookup_cons_ite tool versions [] name
  | cons item rest ih =>
    obtain ⟨first, known⟩ := item
    rw [setTool]
    by_cases hfirst : first = tool
    · subst hfirst
      rw [if_pos rfl, lookup_cons_ite, lookup_cons_ite]
      split_ifs <;> rfl
    · rw [if_neg hfirst, lookup_cons_ite, lookup_cons_ite, ih]
      by_cases hname : name = first
      · rw [if_pos hname, if_pos hname, if_neg (hname ▸ hfirst)]
      · rw [if_neg hname, if_neg hname]

lemma forall₂_lookup {β γ : Type} {R : β → γ → Prop} {items : List (String × β)}
    {others : List (String × γ)}
    (h : List.Forall₂ (fun item other => other.1 = item.1 ∧ R item.2 other.2) items others)
    (name : String) : Option.Rel R (items.lookup name) (others.lookup name) := by
  induction h with
  | nil => exact .none
  | @cons item other _ _ hfirst _ ih =>
    obtain ⟨first, b⟩ := item
    obtain ⟨_, c⟩ := other
    obtain ⟨rfl, hR⟩ := hfirst
    rw [lookup_cons_ite, lookup_cons_ite]
    split_ifs
    · exact .some hR
    · exact ih

lemma of_loadTool {item : String × List String} {loaded : String × List Version}
    (h : loadTool own item = .ok loaded) :
    loaded.1 = item.1 ∧ List.Forall₂ own.Denotes item.2 loaded.2 := by
  obtain ⟨versions, hversions, h⟩ := bind_eq_ok.mp h
  obtain rfl := Except.ok.inj h
  exact ⟨rfl, (mapM_eq_ok.mp hversions).imp fun _ _ => Version.read_eq_ok.mp⟩

/-- Tools are listed in one object after all layers have been merged. -/
lemma lookup_of_map {values : List Json} (hdistinct : ∀ value ∈ values, Distinct value)
    {tools : List (String × List String)} {found : Json} (hfound : stacked? values = some found)
    (h : map (list string) found = .ok tools) (tool : String) :
    Option.Rel (fun value texts => list string value = .ok texts)
      (first? tool (objectsAtop values)) (tools.lookup tool) := by
  cases found with
  | object members =>
    have hread : List.Forall₂ (fun item other => other.1 = item.1 ∧
        list string item.2 = .ok other.2) members tools := by
      refine (mapM_eq_ok.mp h).imp fun item other hitem => ?_
      obtain ⟨texts, htexts, hother⟩ := bind_eq_ok.mp hitem
      obtain rfl := Except.ok.inj hother
      exact ⟨rfl, htexts⟩
    have hlookup :=
      forall₂_lookup (R := fun value texts => list string value = .ok texts) hread tool
    have hvalues := get?_stacked? hdistinct hfound tool
    rw [get?_object] at hvalues
    rw [hvalues] at hlookup
    rw [← head?_valuesOf]
    generalize hstacked : stacked? (valuesOf tool (objectsAtop values)) = value? at hlookup
    generalize tools.lookup tool = texts? at hlookup ⊢
    cases hlookup with
    | none =>
      rw [stacked?_eq_none.mp hstacked]
      exact .none
    | some htexts =>
      rw [head?_of_stacked? hstacked (flat_list string _ _ htexts)]
      exact .some htexts
  | _ => cases h

lemma Source.describedBy_of_decode {values : List Json}
    (hdistinct : ∀ value ∈ values, Distinct value) {source? : Option Source}
    (h : Says decode (stacked? values) source?) :
    Source.DescribedBy values (source?.getD .empty) := by
  generalize hvalue : stacked? values = value? at h
  cases h with
  | absent =>
    obtain rfl := stacked?_eq_none.mp hvalue
    exact .absent
  | null =>
    obtain ⟨rest, rfl⟩ := exists_cons_of_stacked? hvalue rfl
    exact .null rest
  | @value found source hdecode =>
    cases found with
    | array items =>
      obtain ⟨rest, rfl⟩ := exists_cons_of_stacked? hvalue rfl
      exact .items hdecode rest
    | object members =>
      have hlookup (key : String) :
          members.lookup key = stacked? (valuesOf key (objectsAtop values)) :=
        get?_stacked? hdistinct hvalue key
      rw [decode] at hdecode
      obtain ⟨taken, htaken, hfields⟩ := bind_eq_ok.mp hdecode
      obtain rfl := members_object_eq_ok htaken
      obtain ⟨authors, hauthors, hfields⟩ := bind_eq_ok.mp hfields
      obtain ⟨license, hlicense, hfields⟩ := bind_eq_ok.mp hfields
      obtain ⟨tools, htools, hfields⟩ := bind_eq_ok.mp hfields
      obtain ⟨url, hurl, hfields⟩ := bind_eq_ok.mp hfields
      obtain rfl := Except.ok.inj hfields
      -- each field is looked up by itself, in the layers that are objects
      refine .members (objectsAtop_ne_nil hvalue)
        (says_first? (flat_list string) (hlookup _) hauthors)
        (says_first? flat_string (hlookup _) hlicense) (says_first? flat_string (hlookup _) hurl)
        fun tool => ?_
      rw [defaulted, hlookup] at htools
      cases hfound : stacked? (valuesOf "generated_with" (objectsAtop values)) with
      | none =>
        rw [hfound] at htools
        obtain rfl := Except.ok.inj htools
        rw [stacked?_eq_none.mp hfound]
        exact .none
      | some found =>
        rw [hfound] at htools
        have htoolsDistinct := distinct_valuesOf (distinct_objectsAtop hdistinct) "generated_with"
        exact lookup_of_map htoolsDistinct hfound htools tool
    | null | bool | number | string => cases hdecode

lemma describedBy_of_load {values : List Json} {source : Source}
    (hsource : Source.DescribedBy values source) {metadata : Metadata}
    (h : load own source = .ok metadata) : DescribedBy own values metadata := by
  obtain ⟨tools, htools, h⟩ := bind_eq_ok.mp h
  obtain rfl := Except.ok.inj h
  refine ⟨⟨source, hsource, rfl, rfl, rfl, fun tool htool => ?_⟩, ?_⟩
  · have hread := (mapM_eq_ok.mp htools).imp fun _ _ => of_loadTool
    rw [lookup_setTool, if_neg htool]
    exact forall₂_lookup hread tool
  · rw [lookup_setTool, if_pos rfl]

end Metadata

end AddonBuild
