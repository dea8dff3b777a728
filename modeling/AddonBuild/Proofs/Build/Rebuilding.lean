import AddonBuild.Proofs.Build.Containment
import AddonBuild.Proofs.Build.Making
import AddonBuild.Proofs.Import.Asking

/-!
# Filling a pack of scripts again

Nothing of what is put out for a module of scripts is lost if there is no clash. As long as it is
there and the inputs are what they were, filling the pack again finds everything up to date: no
file was anything else on the way, and no import becomes anything else for what it finds now.
-/

namespace AddonBuild

open AddonBuild.Path WorkM

namespace Build

variable {c : Config} {p : Project} {pack : PlacedPack} {m : Module} {entry : String}
  {root : Path} {d d' d₁ e : Disk} {s s' s₁ : Session} {contents : Contents} {relocator : Relocator}
  {inputs : List Input} {outputs : List (Option Output)}

/-! ### What stays the same -/

/-- Whether all that was put out is still there. -/
structure Keeps (paths : List Path) (d' e : Disk) : Prop where
  grows : d'.Grows e
  entry : ∀ q ∈ paths, e.entry q = d'.entry q

/-- Whether the inputs of the module are what they were. What imports find matters only for what
they become: one that finds an output of the first run may be another import than it was on the way
to that output. -/
structure Unchanged (c : Config) (p : Project) (pack : PlacedPack) (m : Module)
    (relocator : Relocator) (inputs : List Input) (d d₁ d' e : Disk) : Prop where
  vendor : vendorFor c (p.packs.flatMap Job.ofPack) e = .ok ⟨[]⟩
  mappings : AliasTable.load e c.compilerSettingsPath = AliasTable.load d c.compilerSettingsPath
  description : Document.read e c.packageJson = Document.read d c.packageJson
  listed : moduleInputs c pack m e = .ok inputs
  sources : ∀ i ∈ inputs, e.entry i.source = d₁.entry i.source
  licenses : ∀ name ∈ licenseFiles, e.entry (c.root.child name) = d₁.entry (c.root.child name)
  imports : ∀ i ∈ inputs, i.relative.hasExtension "js" = true →
    ∀ text, e.readText i.source = .ok text → ∀ t, d₁.Midway d' t →
      relocator.relocateContents (relocator.presence e) i.source
          ((pack.stagePath c.buildPath).join i.relative) text =
        relocator.relocateContents (relocator.presence t) i.source
          ((pack.stagePath c.buildPath).join i.relative) text

lemma isFile_of_scriptProduct {i : Input} {buildPath : Path} {product : Product}
    (h : i.scriptProduct relocator buildPath d = .ok (some product)) :
    d.isFile i.source = true := by
  have hread : ∃ content, d.read i.source = .ok content := by
    rw [Input.scriptProduct] at h
    split_ifs at h
    · obtain ⟨script, hrelocate, -⟩ := bind_eq_ok.mp h
      obtain ⟨text, htext, -⟩ := bind_eq_ok.mp hrelocate
      obtain ⟨content, hcontent, -⟩ := Disk.of_readText_eq_ok (mapError_eq_ok.mp htext)
      exact ⟨content, hcontent⟩
    · obtain ⟨content, hcontent, -⟩ := bind_eq_ok.mp h
      exact ⟨content, mapError_eq_ok.mp hcontent⟩
    · cases h
  obtain ⟨content, hcontent⟩ := hread
  exact Disk.isFile_iff.mpr ⟨content, Disk.read_eq_ok.mp hcontent⟩

lemma licenseProduct_congr {name : String}
    (hentry : e.entry (c.root.child name) = d.entry (c.root.child name)) :
    licenseProduct c pack name e = licenseProduct c pack name d := by
  have hread : Input.read ⟨c.root, ⟨name⟩⟩ e = Input.read ⟨c.root, ⟨name⟩⟩ d := by
    rw [Input.read, Input.read, Input.source, ← Path.child, Disk.read, Disk.read, hentry]
  rw [licenseProduct, licenseProduct, Disk.isFile, Disk.isFile, hentry, hread]

/-- What an input becomes depends on the input and on what its imports become. -/
lemma scriptProduct_congr {i : Input} {buildPath : Path}
    (hentry : e.entry i.source = d.entry i.source)
    (himports : i.relative.hasExtension "js" = true → ∀ text, e.readText i.source = .ok text →
      relocator.relocateContents (relocator.presence e) i.source (buildPath.join i.relative) text =
        relocator.relocateContents (relocator.presence d) i.source (buildPath.join i.relative)
          text) :
    i.scriptProduct relocator buildPath e = i.scriptProduct relocator buildPath d := by
  have hread : e.read i.source = d.read i.source := by
    rw [Disk.read, Disk.read, hentry]
  have htext : e.readText i.source = d.readText i.source := by
    rw [Disk.readText, Disk.readText, hread]
  rw [Input.scriptProduct, Input.scriptProduct, Input.read, Input.read, hread]
  split_ifs with hscript
  · have hrelocate : relocator.relocateFile e i.root i.relative buildPath =
        relocator.relocateFile d i.root i.relative buildPath := by
      rw [Relocator.relocateFile, Relocator.relocateFile, ← Input.source, ← htext]
      cases hcontents : e.readText i.source with
      | error fault => simp only [Except.mapError, bind, Except.bind]
      | ok text =>
        simp only [Except.mapError, bind, Except.bind, Relocator.relocate]
        rw [himports hscript text hcontents]
    rw [hrelocate]
  · rfl
  · rfl

/-- What is there in the end as in the beginning was there all the time, or never. -/
lemma presence_of_midway {t : Disk} (ht : d₁.Midway d' t) (hgrows : d'.Grows e) {q : Path}
    (h : relocator.presence e q = relocator.presence d₁ q) :
    relocator.presence t q = relocator.presence d₁ q := by
  rw [Relocator.presence, Relocator.presence] at h ⊢
  cases hplanned : q.isIn relocator.planned with
  | true => rfl
  | false =>
    rw [hplanned, Bool.false_or, Bool.false_or] at h
    rw [Bool.false_or, Bool.false_or]
    cases hfirst : d₁.exists q with
    | true => exact ht.before.exists hfirst
    | false =>
      rw [hfirst] at h
      rw [← Bool.not_eq_true] at h ⊢
      -- what comes up on the way is there to stay
      exact fun hlater => h (hgrows.exists (ht.after.exists hlater))

section Midway

variable {t : Disk} {kept : List Output} (ht : d₁.Midway d' t)
  (hreceives : d₁.Receives (fun q => ∃ o ∈ kept, q = o.path) d')
  (hfiles : ∀ o ∈ kept, d'.isFile o.path = true) (hkeeps : Keeps (Output.paths kept) d' e)
include ht hreceives hfiles hkeeps

/-- A file that is what it was was nothing else on the way. -/
lemma entry_of_midway {q : Path} (hsame : e.entry q = d₁.entry q) (hfile : t.isFile q = true) :
    t.entry q = d₁.entry q := by
  obtain ⟨content, hend⟩ := Disk.isFile_iff.mp (hkeeps.grows.isFile (ht.after.isFile hfile))
  have hfirst : d₁.entry q = .ok (.file content) := hsame.symm.trans hend
  have hplace := (Disk.entry_eq_file_iff.mp hfirst).2.2.2
  rw [hfirst]
  refine ht.entry_eq hfirst ?_
  rcases hreceives q.location with hk | ⟨hnone, -⟩ | ⟨_, content', ⟨o, ho, rfl⟩, hq, -, hk⟩
  · rw [hk, hplace]
  · rw [hplace] at hnone
    cases hnone
  -- an output in this place is still there, so that it holds what was there in the beginning
  · obtain ⟨content'', houtput⟩ := Disk.isFile_iff.mp (hfiles o ho)
    have hkept := (hkeeps.entry o.path (List.mem_map_of_mem ho)).trans houtput
    have hget := (Disk.entry_eq_file_iff.mp hkept).2.2.2
    rw [← hq, (Disk.entry_eq_file_iff.mp hend).2.2.2] at hget
    rw [hq, (Disk.entry_eq_file_iff.mp houtput).2.2.2, hget]

lemma scriptProduct_of_midway {i : Input} {buildPath : Path} {product : Option Product}
    (hsource : e.entry i.source = d₁.entry i.source)
    (himports : i.relative.hasExtension "js" = true → ∀ text, e.readText i.source = .ok text →
      relocator.relocateContents (relocator.presence e) i.source (buildPath.join i.relative) text =
        relocator.relocateContents (relocator.presence t) i.source (buildPath.join i.relative) text)
    (h : i.scriptProduct relocator buildPath t = .ok product) :
    i.scriptProduct relocator buildPath e = .ok product := by
  cases product with
  | none =>
    have htarget := (map_path_of_scriptProduct h).symm
    rw [Option.map_none, Input.target] at htarget
    rw [Input.scriptProduct]
    split_ifs at htarget ⊢
    rfl
  | some product =>
    have hentry := entry_of_midway ht hreceives hfiles hkeeps hsource (isFile_of_scriptProduct h)
    rw [scriptProduct_congr (hsource.trans hentry.symm) himports, h]

lemma licenseProduct_of_midway {name : String} {product : Option Product}
    (hsame : e.entry (c.root.child name) = d₁.entry (c.root.child name))
    (h : licenseProduct c pack name t = .ok product) :
    licenseProduct c pack name e = .ok product := by
  cases hfile : t.isFile (c.root.child name) with
  | true =>
    have hentry := entry_of_midway ht hreceives hfiles hkeeps hsame hfile
    rw [licenseProduct_congr (hsame.trans hentry.symm), h]
  | false =>
    have hnone : e.isFile (c.root.child name) = false := by
      rw [← Bool.not_eq_true, Disk.isFile, hsame, ← Disk.isFile]
      exact fun hfirst => by simp [ht.before.isFile hfirst] at hfile
    rw [licenseProduct, hfile, if_neg Bool.false_ne_true] at h
    rw [licenseProduct, hnone, if_neg Bool.false_ne_true, ← h]

lemma makersOf_of_midway {make : Disk → Except Fault (Option Product)} {product : Option Product}
    (hunchanged : Unchanged c p pack m relocator inputs d d₁ d' e)
    (hmake : make ∈ makersOf c pack relocator inputs) (h : make t = .ok product) :
    make e = .ok product := by
  rcases List.mem_append.mp hmake with hmake | hmake
  · obtain ⟨i, hi, rfl⟩ := List.mem_map.mp hmake
    exact scriptProduct_of_midway ht hreceives hfiles hkeeps (hunchanged.sources i hi)
      (fun hscript text htext => hunchanged.imports i hi hscript text htext t ht) h
  · obtain ⟨name, hname, rfl⟩ := List.mem_map.mp hmake
    exact licenseProduct_of_midway ht hreceives hfiles hkeeps (hunchanged.licenses name hname) h

end Midway

/-- If it is put out without a clash and the inputs are unchanged, all that is made for the pack is
up to date. -/
lemma upToDate_makersOf
    (h : ((makersOf c pack relocator inputs).mapM putOut).on s₁ = (.ok outputs, s'))
    (hapart : (outputs.filterMap id).Pairwise fun a b => a.path.location ≠ b.path.location)
    (hkeeps : Keeps (Output.paths (outputs.filterMap id)) s'.disk e)
    (hunchanged : Unchanged c p pack m relocator inputs d s₁.disk s'.disk e) :
    List.Forall₂ (UpToDate e) (makersOf c pack relocator inputs) outputs := by
  have hmade := made_of_mapM_putOut h hapart
  have hfiles : ∀ o ∈ outputs.filterMap id, s'.disk.isFile o.path = true := by
    intro o ho
    obtain ⟨output, houtput, rfl⟩ := List.mem_filterMap.mp ho
    obtain ⟨make, -, hmake⟩ := exists_of_mem_right hmade houtput
    exact hmake.isFile
  refine forall₂_of_mem hmade fun make hmake output houtput hmadeHere => ?_
  refine hmadeHere.upToDate (fun t product ht hproduct => ?_) fun o ho => ?_
  · exact makersOf_of_midway ht (receives_of_mapM_putOut h) hfiles hkeeps hunchanged hmake hproduct
  · exact hkeeps.entry o.path
      (List.mem_map_of_mem (List.mem_filterMap.mpr ⟨output, houtput, ho⟩))

lemma filterMap_map_settled (outputs : List (Option Output)) :
    (outputs.map (Option.map Output.settled)).filterMap id =
      (outputs.filterMap id).map Output.settled := by
  rw [List.filterMap_map, List.map_filterMap]
  rfl

lemma pairwise_of_nodup {kept : List Output} (h : ((Output.paths kept).map location).Nodup) :
    kept.Pairwise fun a b => a.path.location ≠ b.path.location := by
  rwa [Output.paths, List.map_map, List.Nodup, List.pairwise_map] at h

lemma descriptionProduct_path {product : Option Product}
    (h : descriptionProduct c root d = .ok product) :
    product.map Product.path = some (packageScript root) := by
  obtain ⟨description, -, hproduct⟩ := bind_eq_ok.mp h
  rw [← Except.ok.inj hproduct, Option.map_some]

lemma scriptRelocator_congr
    (h : AliasTable.load e c.compilerSettingsPath = AliasTable.load d c.compilerSettingsPath) :
    scriptRelocator c root e = scriptRelocator c root d := by
  rw [scriptRelocator, scriptRelocator, scriptAliases, scriptAliases, h]

/-- The places of all that is put out are apart just if there is no clash. -/
lemma nodup_paths_iff {description : Output} (hd : d₁.Proper)
    (hplace : description.path = packageScript root)
    (hinputs : moduleInputs c pack m d₁ = .ok inputs)
    (h : ((makersOf c pack relocator inputs).mapM putOut).on s₁ = (.ok outputs, s')) :
    ((Output.paths (description :: outputs.filterMap id)).map location).Nodup ↔
      NoClash inputs (pack.stagePath c.buildPath) (packageScript root) := by
  obtain ⟨hlisted, hnodup⟩ := listed_of_moduleInputs hd hinputs
  obtain ⟨present, hsublist, hpaths⟩ := exists_paths_of_makersOf h
  have hscripts : ∀ q ∈
      packageScript root :: inputs.filterMap (·.target (pack.stagePath c.buildPath)),
      q.hasExtension "js" = true := by
    refine List.forall_mem_cons.mpr ⟨hasExtension_packageScript root, fun q hq => ?_⟩
    obtain ⟨i, -, hi⟩ := List.mem_filterMap.mp hq
    exact hasExtension_of_target hi
  rw [← nodup_targets_iff hlisted hnodup, ← nodup_append_licenses_iff hscripts hsublist,
    List.cons_append, ← hpaths, ← hplace]
  rfl

/-- The description of the project is up to date as long as nothing is put in its place. -/
lemma upToDate_description {description : Output} {kept : List Output} {product : Option Product}
    (hproduct : descriptionProduct c root d = .ok product)
    (hpath : some description.path = product.map Product.path)
    (hthere : ∀ made ∈ product, d₁.entry made.path = .ok (.file made.content))
    (hlater : d₁.Receives (fun q => ∃ o ∈ kept, q = o.path) d')
    (hother : ∀ o ∈ kept, description.path.location ≠ o.path.location)
    (hsame : Document.read e c.packageJson = Document.read d c.packageJson)
    (hkept : e.entry description.path = d'.entry description.path) :
    UpToDate e (descriptionProduct c root) (some description) := by
  refine ⟨product, ?_, hpath, ?_⟩
  · rw [descriptionProduct, hsame]
    exact hproduct
  · rintro made rfl
    have hmade : description.path = made.path := Option.some.inj hpath
    rw [← hmade, hkept]
    refine hlater.entry_eq (hmade ▸ hthere made rfl) ?_
    rintro _ ⟨o, ho, rfl⟩
    exact (hother o ho).symm

/-- Where all that is made for the pack is up to date, filling it finds just that. -/
lemma on_fillPacks_of_upToDate {description : Output} (hp : IsScripts p pack m entry)
    (hvendor : vendorFor c (p.packs.flatMap Job.ofPack) s.disk = .ok ⟨[]⟩)
    (hrelocator :
      scriptRelocator c (vendorRoot (pack.stagePath c.buildPath) entry) s.disk = .ok relocator)
    (hdescribed : UpToDate s.disk
      (descriptionProduct c (vendorRoot (pack.stagePath c.buildPath) entry)) (some description))
    (hinputs : moduleInputs c pack m s.disk = .ok inputs)
    (h : List.Forall₂ (UpToDate s.disk) (makersOf c pack relocator inputs) outputs) :
    (fillPacks c p).on s =
      (.ok (contentsOf ((description :: outputs.filterMap id).map Output.settled)), s) := by
  refine (on_fillPacks_eq_ok_makers hp hvendor).mpr ⟨relocator, description.settled, s, inputs, _,
    hrelocator, ?_, hinputs, on_mapM_putOut_of_upToDate h, ?_⟩
  · exact on_writePackageScript_eq_ok.mpr (on_putOut_of_upToDate hdescribed)
  · rw [filterMap_map_settled, List.map_cons]

lemma balanced_contentsOf (outputs : List Output) : (contentsOf outputs).Balanced := by
  rw [contentsOf, Tally.Balanced, Contents.toTally_foldl_record]
  exact Tally.balanced_zero.foldl_record outputs

/-- Files that are found up to date are counted as unchanged. -/
lemma contentsOf_settled (outputs : List Output) :
    (contentsOf (outputs.map Output.settled)).outputs = (contentsOf outputs).outputs ∧
      (contentsOf (outputs.map Output.settled)).written = 0 ∧
      (contentsOf (outputs.map Output.settled)).unchanged =
        (contentsOf outputs).written + (contentsOf outputs).unchanged := by
  have hpaths : (contentsOf (outputs.map Output.settled)).outputs =
      (contentsOf outputs).outputs := by
    rw [outputs_contentsOf, outputs_contentsOf, Output.paths_map_settled]
  have hwritten : (contentsOf (outputs.map Output.settled)).written = 0 := by
    rw [contentsOf, Contents.toTally_foldl_record]
    refine Tally.written_foldl_record (fun o ho => ?_) _
    obtain ⟨o', -, rfl⟩ := List.mem_map.mp ho
    rfl
  have hsettled := balanced_contentsOf (outputs.map Output.settled)
  rw [Tally.Balanced, hwritten, Nat.zero_add, hpaths, ← balanced_contentsOf outputs] at hsettled
  exact ⟨hpaths, hwritten, hsettled⟩

/-- For a project of one pack with one module of scripts that needs no packages, all that is put
out goes to places of its own just if there is no clash. Then it is there in the end as it was made,
and while it is kept and the inputs are unchanged, the pack can be filled again, by whichever
process: the disk stays as it is, and every output is reported as unchanged. -/
theorem fillPacks_again (hd : s.disk.Proper) (hp : IsScripts p pack m entry)
    (hvendor : vendorFor c (p.packs.flatMap Job.ofPack) s.disk = .ok ⟨[]⟩)
    (h : (fillPacks c p).on s = (.ok contents, s')) :
    let buildPath := pack.stagePath c.buildPath
    let root := vendorRoot buildPath entry
    let Apart := (contents.outputs.map location).Nodup
    ∃ relocator description s₁ inputs,
      scriptRelocator c root s.disk = .ok relocator ∧
      (writePackageScript c root).on s = (.ok description, s₁) ∧
      moduleInputs c pack m s₁.disk = .ok inputs ∧
      (Apart ↔ NoClash inputs buildPath (packageScript root)) ∧
      (Apart → ∃ outputs, contents.outputs = Output.paths (outputs.filterMap id) ∧
        List.Forall₂ (Made s.disk s'.disk)
          (descriptionProduct c root :: makersOf c pack relocator inputs) outputs) ∧
      ∀ t : Session, Apart → Keeps contents.outputs s'.disk t.disk →
        Unchanged c p pack m relocator inputs s.disk s₁.disk s'.disk t.disk →
        ∃ again, (fillPacks c p).on t = (.ok again, t) ∧ again.outputs = contents.outputs ∧
          again.written = 0 ∧ again.unchanged = contents.written + contents.unchanged := by
  intro buildPath root Apart
  -- the description of the project is made like the rest, only before it
  obtain ⟨relocator, description, s₁, inputs, outputs, hrelocator, hdescription, hinputs,
    houtputs, rfl⟩ := (on_fillPacks_eq_ok_makers hp hvendor).mp h
  have hput := on_writePackageScript_eq_ok.mp hdescription
  have hall : ((descriptionProduct c root :: makersOf c pack relocator inputs).mapM putOut).on s =
      (.ok (some description :: outputs), s') :=
    on_mapM_cons_eq_ok.mpr ⟨_, _, s₁, hput, houtputs, rfl⟩
  obtain ⟨product, hproduct, hpath, hreceives, hthere⟩ := of_putOut hput
  have hplace : description.path = packageScript root := by
    rw [descriptionProduct_path hproduct] at hpath
    exact Option.some.inj hpath
  have hApart : Apart ↔
      ((Output.paths (description :: outputs.filterMap id)).map location).Nodup := by
    rw [← outputs_contentsOf]
  refine ⟨relocator, description, s₁, inputs, hrelocator, hdescription, hinputs,
    hApart.trans (nodup_paths_iff (hreceives.proper hd) hplace hinputs houtputs), ?_, ?_⟩
  · intro hapart
    have hkept : description :: outputs.filterMap id =
        (some description :: outputs).filterMap id := by simp
    refine ⟨some description :: outputs, by rw [outputs_contentsOf, hkept],
      made_of_mapM_putOut hall ?_⟩
    rw [← hkept]
    exact pairwise_of_nodup (hApart.mp hapart)
  · intro t hapart hkeeps hunchanged
    rw [outputs_contentsOf] at hkeeps
    obtain ⟨hother, hrest⟩ := List.pairwise_cons.mp (pairwise_of_nodup (hApart.mp hapart))
    have hdescribed := upToDate_description hproduct hpath hthere (receives_of_mapM_putOut houtputs)
      hother hunchanged.description (hkeeps.entry description.path List.mem_cons_self)
    have hupToDate := upToDate_makersOf houtputs hrest
      ⟨hkeeps.grows, fun q hq => hkeeps.entry q (List.mem_cons_of_mem _ hq)⟩ hunchanged
    have hagain := on_fillPacks_of_upToDate hp hunchanged.vendor
      ((scriptRelocator_congr hunchanged.mappings).trans hrelocator) hdescribed hunchanged.listed
      hupToDate
    exact ⟨_, hagain, contentsOf_settled _⟩

/-! ### The project with scripts, again -/

/-- The project with its description beside where its scripts will be. -/
def describedDisk : Disk where
  entries := [
    (["dist"], .directory),
    (["dist", "build"], .directory),
    (["dist", "build", "scripts"], .directory),
    (["dist", "build", "scripts", "package.js"],
      .file ("export default " ++ packageText ++ ";").toUTF8),
    (["package.json"], .file packageText.toUTF8),
    (["src"], .directory),
    (["src", "scripts"], .directory),
    (["src", "scripts", "a.js"], .file "import './b';".toUTF8),
    (["src", "scripts", "b.js"], .file "".toUTF8),
    (["src", "scripts", "c.json"], .file "1".toUTF8)]
  sorted := by decide
  rooted := by decide

/-- The inputs of its module. -/
def moduleFiles : List Input :=
  [⟨⟨"/src"⟩, ⟨"scripts/a.js"⟩⟩, ⟨⟨"/src"⟩, ⟨"scripts/b.js"⟩⟩, ⟨⟨"/src"⟩, ⟨"scripts/c.json"⟩⟩]

lemma isScripts_scriptProject : IsScripts scriptProject scriptPack scriptModule "scripts/a.js" :=
  ⟨rfl, rfl, rfl⟩

lemma root_scriptPack :
    vendorRoot (scriptPack.stagePath (Config.ofRoot ⟨"/"⟩).buildPath) "scripts/a.js" =
      ⟨"/dist/build/scripts"⟩ := by
  with_unfolding_all rfl

lemma writePackageScript_scriptDisk :
    ((writePackageScript (.ofRoot ⟨"/"⟩) ⟨"/dist/build/scripts"⟩).on scriptSession).2.disk =
      describedDisk := by
  apply Disk.eq_of_entries
  decide +kernel

lemma unchanged_builtDisk {relocator : Relocator} {inputs : List Input}
    (hrelocator : scriptRelocator (.ofRoot ⟨"/"⟩) ⟨"/dist/build/scripts"⟩ scriptDisk =
      .ok relocator)
    (hinputs : moduleInputs (.ofRoot ⟨"/"⟩) scriptPack scriptModule describedDisk = .ok inputs) :
    Unchanged (.ofRoot ⟨"/"⟩) scriptProject scriptPack scriptModule relocator inputs scriptDisk
      describedDisk builtDisk builtDisk := by
  have hlisted : inputs = moduleFiles := by
    have hsome : (moduleInputs (.ofRoot ⟨"/"⟩) scriptPack scriptModule describedDisk).toOption =
        some moduleFiles := by
      decide +kernel
    rw [hinputs] at hsome
    exact Option.some.inj hsome
  constructor
  case vendor => exact vendorFor_of_dependencyNames (by decide +kernel)
  case mappings =>
    rw [AliasTable.load, AliasTable.load, if_neg (by decide +kernel), if_neg (by decide +kernel)]
  case description =>
    have hentry : builtDisk.entry (Config.ofRoot ⟨"/"⟩).packageJson =
        scriptDisk.entry (Config.ofRoot ⟨"/"⟩).packageJson := by
      decide +kernel
    rw [Document.read, Document.read, Document.readAs, Document.readAs, Disk.readText,
      Disk.readText, Disk.read, Disk.read, hentry]
  case listed =>
    have hsources : builtDisk.listFiles (Config.ofRoot ⟨"/"⟩).sourcePath =
        describedDisk.listFiles (Config.ofRoot ⟨"/"⟩).sourcePath := by
      decide +kernel
    have hgenerated :
        builtDisk.listFiles (scriptPack.stagePath (Config.ofRoot ⟨"/"⟩).generatedPath) =
          describedDisk.listFiles (scriptPack.stagePath (Config.ofRoot ⟨"/"⟩).generatedPath) := by
      decide +kernel
    rw [← hinputs, moduleInputs, moduleInputs]
    simp only [sourceFiles, generatedFiles, Selector.select, hsources, hgenerated]
  case sources =>
    rw [hlisted]
    decide +kernel
  case licenses => decide +kernel
  case imports =>
    have hasked :
        ((scriptRelocator (.ofRoot ⟨"/"⟩) ⟨"/dist/build/scripts"⟩ scriptDisk).toOption.all fun r =>
          moduleFiles.all fun i =>
            (describedDisk.readText i.source).toOption.all fun text =>
              (r.askedForScript (r.presence describedDisk) i.source text).all fun q =>
                r.presence builtDisk q == r.presence describedDisk q) = true := by
      decide +kernel
    have hentries : ∀ i ∈ moduleFiles, builtDisk.entry i.source = describedDisk.entry i.source := by
      decide +kernel
    rw [hrelocator, ← hlisted] at hasked
    intro i hi _ text htext t ht
    have hentry : builtDisk.entry i.source = describedDisk.entry i.source :=
      hentries i (hlisted ▸ hi)
    have hinput := List.all_eq_true.mp hasked i hi
    rw [Disk.readText, Disk.read, hentry, ← Disk.read, ← Disk.readText] at htext
    rw [htext] at hinput
    have hpresent (q : Path)
        (hq : q ∈ relocator.askedForScript (relocator.presence describedDisk) i.source text) :
        relocator.presence builtDisk q = relocator.presence describedDisk q :=
      beq_iff_eq.mp (List.all_eq_true.mp hinput q hq)
    -- relocating asks a disk for the presence of paths alone
    rw [Relocator.relocateContents_congr hpresent, Relocator.relocateContents_congr fun q hq =>
      presence_of_midway ht (.refl _) (hpresent q hq)]

/-- The project with scripts is built once, and found up to date when another process builds it
again. -/
theorem fillPacks_again_scriptDisk : ∃ contents s' again,
    (fillPacks (.ofRoot ⟨"/"⟩) scriptProject).on scriptSession = (.ok contents, s') ∧
      (fillPacks (.ofRoot ⟨"/"⟩) scriptProject).on (.start 8 s'.disk) =
        (.ok again, .start 8 s'.disk) ∧
      again.written = 0 ∧ again.unchanged = 4 := by
  obtain ⟨contents, s', hrun, hbuilt, hpaths⟩ := exists_fillPacks_scriptDisk
  obtain ⟨relocator, description, s₁, inputs, hrelocator, hdescription, hinputs, -, -, hagain⟩ :=
    fillPacks_again (s := scriptSession) proper_scriptDisk isScripts_scriptProject
      vendorFor_scriptDisk hrun
  have hplace := writePackageScript_scriptDisk
  rw [root_scriptPack] at hrelocator hdescription
  rw [hdescription] at hplace
  rw [hplace, hbuilt] at hagain
  rw [hplace] at hinputs
  have hapart : (contents.outputs.map location).Nodup := by
    rw [hpaths]
    decide
  have hkeeps : Keeps contents.outputs builtDisk builtDisk := ⟨.refl _, fun _ _ => rfl⟩
  obtain ⟨again, hrun', houtputs, hwritten, hunchanged⟩ :=
    hagain (.start 8 builtDisk) hapart hkeeps (unchanged_builtDisk hrelocator hinputs)
  refine ⟨contents, s', again, hrun, by rw [hbuilt, hrun'], hwritten, ?_⟩
  have hcount := balanced_fillPacks scriptProject _ _ _ hrun
  rw [hunchanged, hcount, hpaths]
  rfl

end Build

end AddonBuild
