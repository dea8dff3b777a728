import AddonBuild.Proofs.Build.Products
import AddonBuild.Proofs.Build.Targets

/-!
# What is made for a pack of scripts

A project of one pack with one module of scripts that needs no packages is filled product by
product: first the description of the project, then what becomes of the inputs, then the licenses.
-/

namespace AddonBuild

open AddonBuild.Path WorkM

namespace Build

/-- A project of one pack with one module of scripts. -/
structure IsScripts (p : Project) (pack : PlacedPack) (m : Module) (entry : String) : Prop where
  packs : p.packs = [pack]
  modules : pack.modules = [m]
  entry : m.entry? = some entry

/-! ### What is made -/

/-- How the imports of a module of scripts are relocated if it needs no packages. -/
def scriptRelocator (c : Config) (root : Path) (d : Disk) : Except Fault Relocator :=
  (scriptAliases c ⟨[]⟩ root d).map fun aliases =>
    { Relocator.ofAliases aliases with reserved := c.reserved }

/-- The inputs of a module of scripts. -/
def moduleInputs (c : Config) (pack : PlacedPack) (m : Module) (d : Disk) :
    Except Fault (List Input) := do
  let selector ← Selector.parse m.globs
  let sources ← sourceFiles c selector d
  let generated ← generatedFiles selector d (pack.stagePath c.generatedPath)
  return scriptInputs c.sourcePath (pack.stagePath c.generatedPath) sources generated

/-- What the description of the project becomes. -/
def descriptionProduct (c : Config) (root : Path) (d : Disk) : Except Fault (Option Product) := do
  let description ← Document.read d c.packageJson
  return some ⟨packageScript root, (Document.moduleText description).toUTF8⟩

/-- What a license becomes, if it is there. -/
def licenseProduct (c : Config) (pack : PlacedPack) (name : String) (d : Disk) :
    Except Fault (Option Product) := do
  if d.isFile (c.root.child name) then
    let content ← Input.read ⟨c.root, ⟨name⟩⟩ d
    return some ⟨(pack.stagePath c.buildPath).child name, content⟩
  else return none

/-- What is made for a pack once the description of the project is there. -/
def makersOf (c : Config) (pack : PlacedPack) (relocator : Relocator) (inputs : List Input) :
    List (Disk → Except Fault (Option Product)) :=
  inputs.map (·.scriptProduct relocator (pack.stagePath c.buildPath)) ++
    licenseFiles.map (licenseProduct c pack)

variable {c : Config} {p : Project} {pack : PlacedPack} {m : Module} {entry : String}
  {root : Path} {d : Disk} {s s' s₁ : Session} {contents : Contents} {relocator : Relocator}
  {inputs : List Input} {outputs : List (Option Output)}

/-! ### How it is made -/

lemma jobs_of_isScripts (h : IsScripts p pack m entry) :
    p.packs.flatMap Job.ofPack = [.scripts pack m entry, .licenses pack] := by
  rw [h.packs, List.flatMap_singleton, Job.ofPack, h.modules, List.map_singleton, Job.ofModule,
    h.entry]
  rfl

lemma moduleInputs_eq_ok :
    moduleInputs c pack m d = .ok inputs ↔ ∃ selector sources generated,
      Selector.parse m.globs = .ok selector ∧ sourceFiles c selector d = .ok sources ∧
      generatedFiles selector d (pack.stagePath c.generatedPath) = .ok generated ∧
      inputs = scriptInputs c.sourcePath (pack.stagePath c.generatedPath) sources generated := by
  constructor
  · intro h
    obtain ⟨selector, hselector, h⟩ := bind_eq_ok.mp h
    obtain ⟨sources, hsources, h⟩ := bind_eq_ok.mp h
    obtain ⟨generated, hgenerated, h⟩ := bind_eq_ok.mp h
    exact ⟨selector, sources, generated, hselector, hsources, hgenerated, (Except.ok.inj h).symm⟩
  · rintro ⟨selector, sources, generated, hselector, hsources, hgenerated, rfl⟩
    exact bind_eq_ok.mpr ⟨selector, hselector, bind_eq_ok.mpr ⟨sources, hsources,
      bind_eq_ok.mpr ⟨generated, hgenerated, rfl⟩⟩⟩

lemma on_execute_nil (relocator : Relocator) (s : Session) :
    (StagingPlan.mk [] relocator).execute.on s = (.ok ⟨.zero, 0⟩, s) := rfl

lemma on_writePackageScript_eq_ok {o : Output} :
    (writePackageScript c root).on s = (.ok o, s₁) ↔
      (putOut (descriptionProduct c root)).on s = (.ok (some o), s₁) := by
  rw [on_putOut_eq_ok_some, writePackageScript, SessionM.on_consult_bind_eq_ok]
  constructor
  · rintro ⟨description, hread, hemit⟩
    exact ⟨_, bind_eq_ok.mpr ⟨description, hread, rfl⟩, hemit⟩
  · rintro ⟨product, hmake, hemit⟩
    obtain ⟨description, hread, hproduct⟩ := bind_eq_ok.mp hmake
    obtain rfl := Option.some.inj (Except.ok.inj hproduct)
    exact ⟨description, hread, hemit⟩

/-- Without packages only the description of the project is staged. -/
lemma on_stageBeside_nil {staged : Contents} :
    (stageBeside c ⟨[], relocator⟩ root).on s = (.ok staged, s₁) ↔
      ∃ o, (writePackageScript c root).on s = (.ok o, s₁) ∧ staged = Contents.zero.record o := by
  have hexecute : (attempt (StagingPlan.mk [] relocator).execute : SessionM Fault _).on s =
      (.ok (.ok ⟨.zero, 0⟩), s) := by
    rw [on_attempt, on_execute_nil]
  rw [stageBeside, on_bind_of_ok hexecute, on_bind, on_attempt]
  generalize (writePackageScript c root).on s = outcome
  obtain ⟨_ | o, s₂⟩ := outcome
  · dsimp only
    rw [on_ofExcept_bind_eq_ok]
    simp only [on_ofExcept_bind_eq_ok]
    simp
  · dsimp only
    rw [on_ofExcept_bind_eq_ok]
    simp only [on_ofExcept_bind_eq_ok, on_pure, Except.ok.injEq, exists_eq_left', Prod.mk.injEq]
    constructor
    · rintro ⟨rfl, rfl⟩
      exact ⟨o, ⟨rfl, rfl⟩, rfl⟩
    · rintro ⟨_, ⟨rfl, rfl⟩, rfl⟩
      exact ⟨rfl, rfl⟩

/-- Without packages there is nothing to plan. -/
lemma ofVendor_nil (root : Path) :
    StagingPlan.ofVendor ⟨[]⟩ root = .ok ⟨[], .ofAliases default⟩ := rfl

/-- The report of a job that has put out the given files. -/
def contentsOf (outputs : List Output) : Contents :=
  outputs.foldl Contents.record .zero

lemma outputs_contentsOf (outputs : List Output) :
    (contentsOf outputs).outputs = Output.paths outputs :=
  Contents.outputs_foldl_record outputs .zero

lemma on_fillScripts_eq_ok :
    (fillScripts c ⟨[]⟩ pack m entry).on s = (.ok contents, s') ↔
      ∃ relocator description s₁ inputs outputs,
        scriptRelocator c (vendorRoot (pack.stagePath c.buildPath) entry) s.disk =
          .ok relocator ∧
        (writePackageScript c (vendorRoot (pack.stagePath c.buildPath) entry)).on s =
          (.ok description, s₁) ∧
        moduleInputs c pack m s₁.disk = .ok inputs ∧
        ((inputs.map (·.scriptProduct relocator (pack.stagePath c.buildPath))).mapM putOut).on s₁ =
          (.ok outputs, s') ∧
        contents = contentsOf (description :: outputs.filterMap id) := by
  rw [fillScripts, SessionM.on_consult_bind_eq_ok]
  simp only [List.mapM_map, moduleInputs_eq_ok]
  constructor
  · rintro ⟨aliases, haliases, h⟩
    obtain ⟨plan, hplan, h⟩ := on_ofExcept_bind_eq_ok.mp h
    obtain rfl := Except.ok.inj (hplan.symm.trans (ofVendor_nil _))
    obtain ⟨staged, s₁, hstaged, h⟩ := on_bind_eq_ok.mp h
    obtain ⟨description, hdescription, rfl⟩ := on_stageBeside_nil.mp hstaged
    obtain ⟨selector, hselector, h⟩ := on_ofExcept_bind_eq_ok.mp h
    obtain ⟨sources, hsources, h⟩ := SessionM.on_consult_bind_eq_ok.mp h
    obtain ⟨generated, hgenerated, h⟩ := SessionM.on_consult_bind_eq_ok.mp h
    obtain ⟨outputs, s₂, houtputs, h⟩ := on_bind_eq_ok.mp h
    obtain ⟨hcontents, rfl⟩ := Prod.mk.inj h
    exact ⟨_, description, s₁, _, outputs, map_eq_ok.mpr ⟨aliases, haliases, rfl⟩, hdescription,
      ⟨selector, sources, generated, hselector, hsources, hgenerated, rfl⟩, houtputs,
      (Except.ok.inj hcontents).symm⟩
  · rintro ⟨relocator, description, s₁, inputs, outputs, hrelocator, hdescription,
      ⟨selector, sources, generated, hselector, hsources, hgenerated, rfl⟩, houtputs, rfl⟩
    obtain ⟨aliases, haliases, rfl⟩ := map_eq_ok.mp hrelocator
    refine ⟨aliases, haliases, on_ofExcept_bind_eq_ok.mpr ⟨_, ofVendor_nil _, ?_⟩⟩
    refine on_bind_eq_ok.mpr
      ⟨_, s₁, on_stageBeside_nil.mpr ⟨description, hdescription, rfl⟩, ?_⟩
    refine on_ofExcept_bind_eq_ok.mpr ⟨selector, hselector, ?_⟩
    refine SessionM.on_consult_bind_eq_ok.mpr ⟨sources, hsources, ?_⟩
    refine SessionM.on_consult_bind_eq_ok.mpr ⟨generated, hgenerated, ?_⟩
    exact on_bind_eq_ok.mpr ⟨outputs, s', houtputs, rfl⟩

lemma on_fillLicenses_eq_ok :
    (fillLicenses c pack).on s = (.ok contents, s') ↔ ∃ filled,
      ((licenseFiles.map (licenseProduct c pack)).mapM putOut).on s = (.ok filled, s') ∧
        contents = contentsOf (filled.filterMap id) := by
  rw [List.mapM_map]
  have hname : (fun name => do
      if ← SessionM.ask (·.isFile (c.root.child name)) then
        let content ← SessionM.consult (Input.read ⟨c.root, ⟨name⟩⟩)
        return some (← Output.emit ((pack.stagePath c.buildPath).child name) content)
      else return none : String → SessionM Fault (Option Output)) =
      fun name => putOut (licenseProduct c pack name) := by
    funext name s
    change WorkM.on _ s = (putOut (licenseProduct c pack name)).on s
    rw [SessionM.on_ask_bind, putOut, on_bind (SessionM.consult _), SessionM.on_consult,
      licenseProduct]
    cases hfile : s.disk.isFile (c.root.child name) with
    | false => rfl
    | true =>
      rw [if_pos rfl, if_pos rfl, on_bind, SessionM.on_consult]
      cases Input.read ⟨c.root, ⟨name⟩⟩ s.disk with
      | error fault => rfl
      | ok content => rfl
  rw [fillLicenses, hname]
  constructor
  · intro h
    obtain ⟨filled, s₁, hfilled, h⟩ := on_bind_eq_ok.mp h
    obtain ⟨hcontents, rfl⟩ := Prod.mk.inj h
    exact ⟨filled, hfilled, (Except.ok.inj hcontents).symm⟩
  · rintro ⟨filled, hfilled, rfl⟩
    exact on_bind_eq_ok.mpr ⟨filled, s', hfilled, rfl⟩

/-- The pack is filled by its scripts and its licenses. -/
lemma on_fillPacks_eq_ok (hp : IsScripts p pack m entry)
    (hvendor : vendorFor c (p.packs.flatMap Job.ofPack) s.disk = .ok ⟨[]⟩) :
    (fillPacks c p).on s = (.ok contents, s') ↔ ∃ scripts s₂ licenses,
      (fillScripts c ⟨[]⟩ pack m entry).on s = (.ok scripts, s₂) ∧
      (fillLicenses c pack).on s₂ = (.ok licenses, s') ∧
      contents = (Contents.zero.merge scripts).merge licenses := by
  rw [jobs_of_isScripts hp] at hvendor
  rw [fillPacks, SessionM.on_consult_bind_eq_ok, jobs_of_isScripts hp]
  constructor
  · rintro ⟨vendor, hvendor', h⟩
    obtain rfl := Except.ok.inj (hvendor'.symm.trans hvendor)
    obtain ⟨parts, s₃, hparts, h⟩ := on_bind_eq_ok.mp h
    obtain ⟨hcontents, rfl⟩ := Prod.mk.inj h
    obtain ⟨scripts, rest, s₂, hscripts, hrest, rfl⟩ := on_mapM_cons_eq_ok.mp hparts
    obtain ⟨licenses, none, s₄, hlicenses, hnone, rfl⟩ := on_mapM_cons_eq_ok.mp hrest
    obtain ⟨hnil, rfl⟩ := Prod.mk.inj hnone
    obtain rfl := Except.ok.inj hnil
    exact ⟨scripts, s₂, licenses, hscripts, hlicenses, (Except.ok.inj hcontents).symm⟩
  · rintro ⟨scripts, s₂, licenses, hscripts, hlicenses, rfl⟩
    refine ⟨⟨[]⟩, hvendor, on_bind_eq_ok.mpr ⟨[scripts, licenses], s', ?_, rfl⟩⟩
    exact on_mapM_cons_eq_ok.mpr ⟨scripts, _, s₂, hscripts,
      on_mapM_cons_eq_ok.mpr ⟨licenses, [], s', hlicenses, rfl, rfl⟩, rfl⟩

/-- What two jobs have put out is counted as by one. -/
lemma merge_contentsOf (first second : List Output) :
    (Contents.zero.merge (contentsOf first)).merge (contentsOf second) =
      contentsOf (first ++ second) := by
  simp only [contentsOf, Contents.merge_foldl_record, Contents.merge_zero, List.foldl_append]

/-- Filling the pack is putting out what is made for it, after the description of the project. -/
lemma on_fillPacks_eq_ok_makers (hp : IsScripts p pack m entry)
    (hvendor : vendorFor c (p.packs.flatMap Job.ofPack) s.disk = .ok ⟨[]⟩) :
    (fillPacks c p).on s = (.ok contents, s') ↔
      ∃ relocator description s₁ inputs outputs,
        scriptRelocator c (vendorRoot (pack.stagePath c.buildPath) entry) s.disk =
          .ok relocator ∧
        (writePackageScript c (vendorRoot (pack.stagePath c.buildPath) entry)).on s =
          (.ok description, s₁) ∧
        moduleInputs c pack m s₁.disk = .ok inputs ∧
        ((makersOf c pack relocator inputs).mapM putOut).on s₁ = (.ok outputs, s') ∧
        contents = contentsOf (description :: outputs.filterMap id) := by
  rw [on_fillPacks_eq_ok hp hvendor]
  constructor
  · rintro ⟨scripts, s₂, licenses, hscripts, hlicenses, rfl⟩
    obtain ⟨relocator, description, s₁, inputs, outputs, hrelocator, hdescription, hinputs,
      houtputs, rfl⟩ := on_fillScripts_eq_ok.mp hscripts
    obtain ⟨filled, hfilled, rfl⟩ := on_fillLicenses_eq_ok.mp hlicenses
    refine ⟨relocator, description, s₁, inputs, outputs ++ filled, hrelocator, hdescription,
      hinputs, on_mapM_append_eq_ok.mpr ⟨outputs, filled, s₂, houtputs, hfilled, rfl⟩, ?_⟩
    rw [merge_contentsOf, List.filterMap_append, List.cons_append]
  · rintro ⟨relocator, description, s₁, inputs, outputs, hrelocator, hdescription, hinputs,
      houtputs, rfl⟩
    obtain ⟨scripts, licenses, s₂, hscripts, hlicenses, rfl⟩ := on_mapM_append_eq_ok.mp houtputs
    refine ⟨_, s₂, contentsOf (licenses.filterMap id), on_fillScripts_eq_ok.mpr ⟨relocator,
      description, s₁, inputs, scripts, hrelocator, hdescription, hinputs, hscripts, rfl⟩,
      on_fillLicenses_eq_ok.mpr ⟨licenses, hlicenses, rfl⟩, ?_⟩
    rw [merge_contentsOf, List.filterMap_append, List.cons_append]

/-! ### Where it goes -/

lemma paths_filterMap {α : Type} {target : α → Option Path} {l : List α}
    (h : List.Forall₂ (fun a output => Option.map Output.path output = target a) l outputs) :
    Output.paths (outputs.filterMap id) = l.filterMap target := by
  induction h with
  | nil => rfl
  | @cons a output l outputs hfirst _ ih =>
    rw [List.filterMap_cons (f := target), ← hfirst, ← ih]
    cases output <;> rfl

lemma exists_paths_of_licenses {names : List String}
    (h : List.Forall₂ (fun name output => ∃ e product, licenseProduct c pack name e = .ok product ∧
      Option.map Output.path output = product.map Product.path) names outputs) :
    ∃ present : List String, present.Sublist names ∧
      Output.paths (outputs.filterMap id) = present.map (pack.stagePath c.buildPath).child := by
  induction h with
  | nil => exact ⟨[], .refl _, rfl⟩
  | @cons name output names outputs hfirst _ ih =>
    obtain ⟨e, product, hmake, hpath⟩ := hfirst
    obtain ⟨present, hsublist, hpaths⟩ := ih
    rw [licenseProduct] at hmake
    split_ifs at hmake
    · obtain ⟨content, -, hproduct⟩ := bind_eq_ok.mp hmake
      rw [← Except.ok.inj hproduct] at hpath
      obtain ⟨o, rfl, ho⟩ := Option.map_eq_some_iff.mp hpath
      refine ⟨name :: present, hsublist.cons_cons name, ?_⟩
      rw [List.map_cons, ← hpaths]
      exact congrArg (· :: Output.paths (outputs.filterMap id)) ho
    · rw [← Except.ok.inj hmake, Option.map_none, Option.map_eq_none_iff] at hpath
      rw [hpath]
      exact ⟨present, hsublist.cons name, hpaths⟩

/-- What is made for the pack goes to the targets of the inputs, and the licenses that are there
beside them. -/
lemma exists_paths_of_makersOf
    (h : ((makersOf c pack relocator inputs).mapM putOut).on s = (.ok outputs, s')) :
    ∃ present : List String, present.Sublist licenseFiles ∧ Output.paths (outputs.filterMap id) =
      inputs.filterMap (·.target (pack.stagePath c.buildPath)) ++
        present.map (pack.stagePath c.buildPath).child := by
  obtain ⟨scripts, licenses, s₂, hscripts, hlicenses, rfl⟩ := on_mapM_append_eq_ok.mp h
  have hinputs : Output.paths (scripts.filterMap id) =
      inputs.filterMap (·.target (pack.stagePath c.buildPath)) := by
    apply paths_filterMap
    refine (List.forall₂_map_left_iff.mp (exists_of_mapM_putOut hscripts)).imp ?_
    rintro i output ⟨e, product, hmake, hpath⟩
    rw [hpath]
    exact map_path_of_scriptProduct hmake
  obtain ⟨present, hsublist, hpaths⟩ := exists_paths_of_licenses
    (List.forall₂_map_left_iff.mp (exists_of_mapM_putOut hlicenses))
  refine ⟨present, hsublist, ?_⟩
  rw [← hinputs, ← hpaths, List.filterMap_append]
  exact List.map_append

lemma listed_of_moduleInputs (hd : d.Proper) (h : moduleInputs c pack m d = .ok inputs) :
    (∀ i ∈ inputs, i.relative.Listed) ∧ (inputs.map (·.relative)).Nodup := by
  obtain ⟨selector, sources, generated, -, hsources, hgenerated, rfl⟩ := moduleInputs_eq_ok.mp h
  refine ⟨fun i hi => listed_of_mem_scriptInputs hd hd hsources hgenerated hi, ?_⟩
  have hselect {root : Path} {selected : List Path}
      (hselected : selector.select d root = .ok selected) : selected.Nodup := by
    obtain ⟨files, hfiles, rfl⟩ := Selector.select_eq_ok.mp hselected
    exact (Disk.nodup_listFiles hd hfiles).filter _
  obtain ⟨selected, hselected, hsources⟩ := bind_eq_ok.mp hsources
  obtain ⟨selected', hselected', hgenerated⟩ := bind_eq_ok.mp hgenerated
  rw [← Except.ok.inj hsources, ← Except.ok.inj hgenerated]
  exact nodup_scriptInputs ((hselect hselected).filter _) ((hselect hselected').filter _)

end Build

end AddonBuild
