import AddonBuild.Build.Run
import AddonBuild.Proofs.Disk.Receiving
import AddonBuild.Proofs.Disk.Walking
import AddonBuild.Proofs.Path.FileNames

/-!
# What fills the packs

Whatever fills a pack is a script, a license, or a copy of a file of the source tree. Where each job
puts its files follows from the names in the listings that it goes through. None of them goes by the
name of a manifest, but for copies of files deeper in the source tree than the source of the
manifests.
-/

namespace AddonBuild

open AddonBuild.Path SessionM

/-- Whether a path is one such as listings consist of: relative, and made of names. -/
def Path.Listed (p : Path) : Prop :=
  ∃ rel : Location, p = rel.path ∧ rel ≠ [] ∧ ∀ name ∈ rel, (Component.name name).IsStep

/-- What is selected is listed. -/
lemma Selector.select_eq_ok {s : Selector} {d : Disk} {root : Path} {selected : List Path} :
    s.select d root = .ok selected ↔
      ∃ files, d.listFiles root = .ok files ∧ files.filter s.selects = selected := by
  rw [select, bind_eq_ok]
  simp only [mapError_eq_ok, pure, Except.pure, Except.ok.injEq]

lemma Disk.listed_of_mem_listFiles {d : Disk} (hd : d.Proper) {root relative : Path}
    {files : List Path} (hfiles : d.listFiles root = .ok files) (h : relative ∈ files) :
    relative.Listed := by
  obtain ⟨rel, rfl, hne, hstep, -⟩ := exists_of_mem_listFiles hd hfiles h
  exact ⟨rel, rfl, hne, hstep⟩

lemma listed_of_mem_select {s : Selector} {d : Disk} (hd : d.Proper) {root relative : Path}
    {selected : List Path} (hselect : s.select d root = .ok selected) (h : relative ∈ selected) :
    relative.Listed := by
  obtain ⟨files, hfiles, rfl⟩ := Selector.select_eq_ok.mp hselect
  exact Disk.listed_of_mem_listFiles hd hfiles (List.mem_filter.mp h).1

namespace StagingReport

@[simp] lemma toTally_foldl_merge (reports : List StagingReport) (r : StagingReport) :
    (reports.foldl merge r).toTally = (reports.map (·.toTally)).foldl Tally.merge r.toTally := by
  induction reports generalizing r with
  | nil => rfl
  | cons first reports ih => exact ih (r.merge first)

/-- What is staged is put out package by package. -/
lemma outputs_ofTasks (outputs : List (List Output)) :
    (ofTasks outputs).outputs = outputs.flatMap Output.paths := by
  rw [ofTasks, toTally_foldl_merge, Tally.outputs_foldl_merge, List.map_map, List.flatMap_map]
  refine (List.nil_append _).trans (List.flatMap_congr fun outputs _ => ?_)
  exact Tally.outputs_ofOutputs outputs

end StagingReport

namespace Build

namespace Contents

@[simp] lemma toTally_foldl_record (outputs : List Output) (contents : Contents) :
    (outputs.foldl record contents).toTally = outputs.foldl Tally.record contents.toTally := by
  induction outputs generalizing contents with
  | nil => rfl
  | cons o outputs ih => exact ih (contents.record o)

@[simp] lemma toTally_foldl_merge (parts : List Contents) (contents : Contents) :
    (parts.foldl merge contents).toTally =
      (parts.map (·.toTally)).foldl Tally.merge contents.toTally := by
  induction parts generalizing contents with
  | nil => rfl
  | cons first parts ih => exact ih (contents.merge first)

/-- Files that are counted are put out behind those that were counted before. -/
lemma outputs_foldl_record (outputs : List Output) (contents : Contents) :
    (outputs.foldl record contents).outputs = contents.outputs ++ Output.paths outputs := by
  rw [toTally_foldl_record, Tally.outputs_foldl_record]
  rfl

lemma outputs_foldl_merge (parts : List Contents) (contents : Contents) :
    (parts.foldl merge contents).outputs =
      contents.outputs ++ parts.flatMap (·.outputs) := by
  rw [toTally_foldl_merge, Tally.outputs_foldl_merge, List.flatMap_map]

lemma merge_record (a b : Contents) (o : Output) :
    a.merge (b.record o) = (a.merge b).record o := by
  unfold merge record Tally.merge Tally.record
  cases o.fresh <;> simp [Nat.add_assoc]

lemma merge_zero (a : Contents) : a.merge zero = a := by
  unfold merge zero Tally.merge Tally.zero
  simp

/-- Files that are counted apart and added are counted on. -/
lemma merge_foldl_record (a b : Contents) (outputs : List Output) :
    a.merge (outputs.foldl record b) = outputs.foldl record (a.merge b) := by
  induction outputs generalizing b with
  | nil => rfl
  | cons o outputs ih => rw [List.foldl_cons, List.foldl_cons, ih, merge_record]

end Contents

/-- Where a job puts its files. -/
inductive Job.Puts (c : Config) (vendor : Vendor) : Job → Path → Prop where
  | package {pack : PlacedPack} {m : Module} {entry : String} {p : Package} {relative : Path}
    (hp : p ∈ vendor.packages) (hrelative : relative.Listed)
    (hscript : relative.hasExtension "js" = true) :
    Puts c vendor (.scripts pack m entry)
      (((vendorRoot (pack.stagePath c.buildPath) entry).child p.name).join relative)
  | description {pack : PlacedPack} {m : Module} {entry : String} :
    Puts c vendor (.scripts pack m entry)
      (packageScript (vendorRoot (pack.stagePath c.buildPath) entry))
  | script {pack : PlacedPack} {m : Module} {entry : String} {relative : Path}
    (hrelative : relative.Listed) (hscript : relative.hasExtension "js" = true) :
    Puts c vendor (.scripts pack m entry) ((pack.stagePath c.buildPath).join relative)
  | json {pack : PlacedPack} {m : Module} {entry : String} {relative : Path}
    (hrelative : relative.Listed) (hjson : relative.hasExtension "json" = true) :
    Puts c vendor (.scripts pack m entry)
      (((pack.stagePath c.buildPath).join relative).withExtension "js")
  | copy {pack : PlacedPack} {m : Module} {relative : Path} (hrelative : relative.Listed)
    (hother : relative ≠ ⟨"manifest.json"⟩) :
    Puts c vendor (.copies pack m) ((pack.stagePath c.buildPath).join relative)
  | license {pack : PlacedPack} {name : String} (hname : name ∈ licenseFiles) :
    Puts c vendor (.licenses pack) ((pack.stagePath c.buildPath).child name)

/-- Where the packs are filled: at files that are not named like a manifest, and at the places of
copies in the directory of a pack. What lies at the place of the manifest is not copied. -/
structure IsContent (c : Config) (packs : List PlacedPack) (p : Path) : Prop where
  absolute : c.root.isAbsolute = true → p.isAbsolute = true
  place : (∃ name ≠ "manifest.json", p.fileName? = some name) ∨
    ∃ pack ∈ packs, ∃ rel : Location, rel ≠ [] ∧ rel ≠ ["manifest.json"] ∧
      (∀ name ∈ rel, (Component.name name).IsStep) ∧
      p = (pack.stagePath c.buildPath).join rel.path

variable {c : Config} {packs : List PlacedPack} {pack : PlacedPack} {known : List Path}

/-! ### Outputs of parts -/

lemma flatMap_path (outputs : List Output) :
    (outputs.flatMap fun o => [o.path]) = Output.paths outputs :=
  List.map_eq_flatMap.symm

lemma flatMap_toList_path (outputs : List (Option Output)) :
    (outputs.flatMap fun o => (o.map (·.path)).toList) = Output.paths (outputs.filterMap id) := by
  induction outputs with
  | nil => rfl
  | cons o outputs ih =>
    cases o with
    | none => exact ih
    | some o => exact congrArg (o.path :: ·) ih

lemma relocateFile_destination {r : Relocator} {d : Disk} {source relative destination : Path}
    {script : ScriptText} (h : r.relocateFile d source relative destination = .ok script) :
    script.destination = destination.join relative := by
  obtain ⟨contents, -, h⟩ := bind_eq_ok.mp h
  obtain ⟨relocated, -, h⟩ := bind_eq_ok.mp h
  rw [← Except.ok.inj h]

/-! ### Staging -/

section Places

variable {P : Path → Prop}

lemma places_stage (t : StagingTask) (relocator : Relocator) {modules : List Path}
    (h : ∀ relative ∈ modules, P (t.destination.join relative)) :
    Places P known (t.stage relocator modules) Output.paths := by
  refine (Places.mapM (fun o => [o.path]) fun relative hrelative => ?_).subset
    fun outputs => (flatMap_path outputs).symm ▸ List.Subset.refl _
  refine .consult fun script d _ hscript => .emit ?_ _
  rw [relocateFile_destination hscript]
  exact h relative hrelative

lemma of_mem_modules {t : StagingTask} {d : Disk} (hd : d.Proper) {modules : List Path}
    (h : t.modules d = .ok modules) {relative : Path} (hmem : relative ∈ modules) :
    relative.Listed ∧ relative.hasExtension "js" = true := by
  obtain ⟨selector, -, h⟩ := bind_eq_ok.mp h
  obtain ⟨selected, hselect, h⟩ := bind_eq_ok.mp h
  rw [← Except.ok.inj h, List.mem_filter, StagingTask.isModule, Bool.and_eq_true] at hmem
  exact ⟨listed_of_mem_select hd hselect hmem.1, hmem.2.1⟩

lemma places_stagePlan (plan : StagingPlan)
    (h : ∀ task ∈ plan.tasks, ∀ relative : Path, relative.Listed →
      relative.hasExtension "js" = true → P (task.destination.join relative)) :
    Places P known plan.stage fun outputs => outputs.flatMap Output.paths := by
  refine .consult fun work d hd hwork => Places.mapM Output.paths fun item hitem => ?_
  obtain ⟨task, htask, hlisted⟩ := exists_of_mem_right (mapM_eq_ok.mp hwork) hitem
  obtain ⟨modules, hmodules, hitem⟩ := bind_eq_ok.mp hlisted
  obtain rfl := Except.ok.inj hitem
  refine places_stage task _ fun relative hrelative => ?_
  obtain ⟨hlisted, hscript⟩ := of_mem_modules hd hmodules hrelative
  exact h task htask relative hlisted hscript

lemma places_execute (plan : StagingPlan)
    (h : ∀ task ∈ plan.tasks, ∀ relative : Path, relative.Listed →
      relative.hasExtension "js" = true → P (task.destination.join relative)) :
    Places P known plan.execute (·.outputs) := by
  refine (places_stagePlan plan h).bind fun outputs => .pure ?_
  rw [StagingReport.outputs_ofTasks]
  exact List.subset_append_right _ _

/-! ### Modules of scripts -/

lemma places_writePackageScript {root : Path} (h : P (packageScript root)) :
    Places P known (writePackageScript c root) fun o => [o.path] :=
  .consult fun _ _ _ _ => .emit h _

lemma places_stageBeside {plan : StagingPlan} {root : Path} (hroot : P (packageScript root))
    (hplan : ∀ task ∈ plan.tasks, ∀ relative : Path, relative.Listed →
      relative.hasExtension "js" = true → P (task.destination.join relative)) :
    Places P known (stageBeside c plan root) (·.outputs) := by
  refine .attempt (places_execute plan hplan) fun staged => ?_
  refine .attempt (places_writePackageScript hroot) fun description => ?_
  refine .ofExcept fun report hstaged => .ofExcept fun output hdescription => .pure ?_
  rw [hstaged, hdescription, List.append_assoc]
  exact List.subset_append_right _ _

/-- Where an input of a module of scripts goes, if it becomes anything. -/
def Input.target (i : Input) (buildPath : Path) : Option Path :=
  if i.relative.hasExtension "js" then some (buildPath.join i.relative)
  else if i.relative.hasExtension "json" then some ((buildPath.join i.relative).withExtension "js")
  else none

/-- What an input becomes goes to its target. -/
lemma map_path_of_scriptProduct {i : Input} {relocator : Relocator} {buildPath : Path} {d : Disk}
    {product : Option Product} (h : i.scriptProduct relocator buildPath d = .ok product) :
    product.map Product.path = i.target buildPath := by
  rw [Input.scriptProduct] at h
  rw [Input.target]
  split_ifs at h ⊢ with hscript hjson
  · obtain ⟨script, hrelocate, h⟩ := bind_eq_ok.mp h
    rw [← Except.ok.inj h, Option.map_some, relocateFile_destination hrelocate]
  · obtain ⟨content, -, h⟩ := bind_eq_ok.mp h
    obtain ⟨text, -, h⟩ := bind_eq_ok.mp h
    rw [← Except.ok.inj h, Option.map_some]
  · rw [← Except.ok.inj h, Option.map_none]

lemma puts_of_target {vendor : Vendor} {m : Module} {entry : String} {i : Input} {q : Path}
    (hlisted : i.relative.Listed) (h : i.target (pack.stagePath c.buildPath) = some q) :
    (Job.scripts pack m entry).Puts c vendor q := by
  rw [Input.target] at h
  split_ifs at h with hscript hjson
  · exact Option.some.inj h ▸ .script hlisted hscript
  · exact Option.some.inj h ▸ .json hlisted hjson

/-- The inputs of a module of scripts are listed. -/
lemma listed_of_mem_scriptInputs {s : Selector} {d d' : Disk} (hd : d.Proper) (hd' : d'.Proper)
    {generatedPath : Path} {sources generated : List Path}
    (hsources : sourceFiles c s d = .ok sources)
    (hgenerated : generatedFiles s d' generatedPath = .ok generated) {i : Input}
    (h : i ∈ scriptInputs c.sourcePath generatedPath sources generated) : i.relative.Listed := by
  obtain ⟨selected, hselected, hsources⟩ := bind_eq_ok.mp hsources
  obtain ⟨selected', hselected', hgenerated⟩ := bind_eq_ok.mp hgenerated
  obtain rfl := Except.ok.inj hsources
  obtain rfl := Except.ok.inj hgenerated
  rw [scriptInputs, List.mem_append, List.mem_map, List.mem_map] at h
  obtain ⟨relative, hmem, rfl⟩ | ⟨relative, hmem, rfl⟩ := h
  · exact listed_of_mem_select hd hselected (List.mem_filter.mp hmem).1
  · exact listed_of_mem_select hd' hselected' (List.mem_filter.mp (List.mem_filter.mp hmem).1).1

lemma places_fillScripts (vendor : Vendor) (pack : PlacedPack) (m : Module) (entry : String)
    (h : ∀ q, (Job.scripts pack m entry).Puts c vendor q → P q) :
    Places P known (fillScripts c vendor pack m entry) (·.outputs) := by
  refine .consult fun aliases d _ _ => .ofExcept fun plan hplan => ?_
  refine (places_stageBeside (h _ .description) fun task htask => ?_).bind fun staged => ?_
  · obtain ⟨aliases, -, hplan⟩ := bind_eq_ok.mp hplan
    obtain ⟨table, -, hplan⟩ := bind_eq_ok.mp hplan
    rw [← Except.ok.inj hplan] at htask
    obtain ⟨p, hp, rfl⟩ := List.mem_map.mp htask
    intro relative hlisted hscript
    exact h _ (.package hp hlisted hscript)
  refine .ofExcept fun selector _ => .consult fun sources d₁ hd₁ hsources =>
    .consult fun generated d₂ hd₂ hgenerated => ?_
  refine (Places.mapM (fun o => (o.map (·.path)).toList) fun input hinput => ?_).bind
    fun filled => .pure ?_
  · have hlisted := listed_of_mem_scriptInputs hd₁ hd₂ hsources hgenerated hinput
    refine .consult fun product d _ hproduct => ?_
    cases product with
    | none => exact .pure (List.nil_subset _)
    | some product =>
      refine (Places.emit (h _ ?_) _).bind fun o => .pure (List.subset_append_right _ _)
      exact puts_of_target hlisted (map_path_of_scriptProduct hproduct).symm
  · rw [flatMap_toList_path, List.append_assoc, Contents.outputs_foldl_record]
    exact List.subset_append_right _ _

/-! ### Other modules -/

/-- What is selected from the source tree lies somewhere else than the source of the manifests. -/
lemma of_mem_sourceFiles {s : Selector} {d : Disk} (hd : d.Proper) {relative : Path}
    {sources : List Path} (hsources : sourceFiles c s d = .ok sources) (h : relative ∈ sources) :
    relative.Listed ∧ relative ≠ ⟨"manifest.json"⟩ := by
  obtain ⟨selected, hselected, hsources⟩ := bind_eq_ok.mp hsources
  rw [← Except.ok.inj hsources] at h
  obtain ⟨hselect, hother⟩ := List.mem_filter.mp h
  refine ⟨listed_of_mem_select hd hselected hselect, ?_⟩
  rintro rfl
  simp [same, Config.manifestSource, child] at hother

lemma copyProduct_path {i : Input} {buildPath : Path} {d : Disk} {product : Product}
    (h : i.copyProduct buildPath d = .ok product) : product.path = buildPath.join i.relative := by
  obtain ⟨content, -, h⟩ := bind_eq_ok.mp h
  dsimp only at h
  split_ifs at h
  · obtain ⟨-, -, h⟩ := bind_eq_ok.mp h
    rw [← Except.ok.inj h]
  · rw [← Except.ok.inj h]

lemma places_fillCopies (vendor : Vendor) (pack : PlacedPack) (m : Module)
    (h : ∀ q, (Job.copies pack m).Puts c vendor q → P q) :
    Places P known (fillCopies c pack m) (·.outputs) := by
  refine .ofExcept fun selector _ => .consult fun sources d hd hsources => ?_
  refine (Places.mapM (fun o => [o.path]) fun relative hrelative => ?_).bind
    fun filled => .pure ?_
  · refine .consult fun product d' _ hproduct => .emit (h _ ?_) _
    obtain ⟨hlisted, hother⟩ := of_mem_sourceFiles hd hsources hrelative
    rw [copyProduct_path hproduct]
    exact .copy hlisted hother
  · rw [flatMap_path, Contents.outputs_foldl_record]
    exact List.append_subset.mpr ⟨List.nil_subset _, List.subset_append_right _ _⟩

lemma places_fillLicenses (vendor : Vendor) (pack : PlacedPack)
    (h : ∀ q, (Job.licenses pack).Puts c vendor q → P q) :
    Places P known (fillLicenses c pack) (·.outputs) := by
  refine (Places.mapM (fun o => (o.map (·.path)).toList) fun name hname => ?_).bind
    fun filled => .pure ?_
  · refine .ask fun d _ => ?_
    split_ifs
    · refine .consult fun content _ _ _ => ?_
      refine (Places.emit (h _ (.license hname)) _).bind fun o => .pure ?_
      exact List.subset_append_right _ _
    · exact .pure (List.nil_subset _)
  · rw [flatMap_toList_path, Contents.outputs_foldl_record]
    exact List.append_subset.mpr ⟨List.nil_subset _, List.subset_append_right _ _⟩

/-! ### All jobs -/

/-- A job puts files where it says, whatever comes of it, and at all that it answers for if it
succeeds. -/
lemma places_run (vendor : Vendor) (job : Job) (h : ∀ q, job.Puts c vendor q → P q) :
    Places P known (job.run c vendor) (·.outputs) := by
  cases job with
  | scripts pack m entry => exact places_fillScripts vendor pack m entry h
  | copies pack m => exact places_fillCopies vendor pack m h
  | licenses pack => exact places_fillLicenses vendor pack h

lemma places_mapM_run (vendor : Vendor) {jobs : List Job}
    (h : ∀ job ∈ jobs, ∀ q, job.Puts c vendor q → P q) :
    Places P known (do return (← jobs.mapM (Job.run c vendor)).foldl .merge .zero)
      fun contents : Contents => contents.outputs := by
  refine (Places.mapM (fun part : Contents => part.outputs) fun job hjob =>
    places_run vendor job (h job hjob)).bind fun parts => .pure ?_
  rw [Contents.outputs_foldl_merge]
  exact List.append_subset.mpr ⟨List.nil_subset _, List.subset_append_right _ _⟩

end Places

/-- The jobs of a pack fill its modules, or are the one with the licenses. -/
lemma mem_ofPack {job : Job} :
    job ∈ Job.ofPack pack ↔
      (∃ m ∈ pack.modules, ∃ entry, m.entry? = some entry ∧ job = .scripts pack m entry) ∨
      (∃ m ∈ pack.modules, m.entry? = none ∧ job = .copies pack m) ∨ job = .licenses pack := by
  rw [Job.ofPack, List.mem_append, List.mem_map, List.mem_singleton, ← or_assoc]
  refine or_congr_left ⟨?_, ?_⟩
  · rintro ⟨m, hm, rfl⟩
    rw [Job.ofModule]
    cases hentry : m.entry? with
    | some entry => exact .inl ⟨m, hm, entry, hentry, rfl⟩
    | none => exact .inr ⟨m, hm, hentry, rfl⟩
  · rintro (⟨m, hm, entry, hentry, rfl⟩ | ⟨m, hm, hentry, rfl⟩) <;>
      exact ⟨m, hm, by rw [Job.ofModule, hentry]⟩

/-! ### Places of content -/

lemma isAbsolute_buildPath (h : c.root.isAbsolute = true) : c.buildPath.isAbsolute = true :=
  absolutize_isAbsolute h _

lemma isAbsolute_stagePath {root : Path} (h : root.isAbsolute = true) :
    (pack.stagePath root).isAbsolute = true := by
  rw [PlacedPack.stagePath]
  split
  · exact isAbsolute_join h _
  · exact h

lemma isAbsolute_vendorRoot {buildPath : Path} (h : buildPath.isAbsolute = true) (entry : String) :
    (vendorRoot buildPath entry).isAbsolute = true :=
  isAbsolute_join h _

lemma ne_manifest_of_splitName {name : String} (h : (splitName name).2 = some "js") :
    name ≠ "manifest.json" := by
  rintro rfl
  exact absurd h (by decide)

/-- A script is not named like a manifest. -/
lemma isContent_script {p : Path} (habsolute : c.root.isAbsolute = true → p.isAbsolute = true)
    (h : p.hasExtension "js" = true) : IsContent c packs p := by
  obtain ⟨name, hname, hextension⟩ := exists_of_hasExtension h
  exact ⟨habsolute, .inl ⟨name, ne_manifest_of_splitName hextension, hname⟩⟩

lemma hasExtension_join {p q : Path} {extension : String} (h : q.hasExtension extension = true) :
    (p.join q).hasExtension extension = true := by
  obtain ⟨name, hname, hextension⟩ := exists_of_hasExtension h
  rw [hasExtension, extension?, fileName?_join hname, beq_iff_eq]
  exact hextension

lemma hasExtension_packageScript (root : Path) :
    (packageScript root).hasExtension "js" = true := by
  rw [packageScript, child]
  exact hasExtension_join (by decide)

lemma isContent_packageScript {root : Path}
    (hroot : c.root.isAbsolute = true → root.isAbsolute = true) :
    IsContent c packs (packageScript root) :=
  isContent_script (fun h => isAbsolute_join (hroot h) _) (hasExtension_packageScript root)

/-- What a JSON file becomes is not named like a manifest. -/
lemma isContent_withExtension {p : Path}
    (habsolute : c.root.isAbsolute = true → p.isAbsolute = true) {name : String}
    (h : p.fileName? = some name) : IsContent c packs (p.withExtension "js") := by
  refine ⟨fun hroot => (isAbsolute_withExtension (by decide) (by decide) h).trans
    (habsolute hroot), .inl ⟨_, ?_,
    fileName?_withExtension (by decide) (by decide) h⟩⟩
  intro heq
  have hlast := congrArg (fun text : String => text.toList.getLast?) heq
  rw [String.toList_append, List.getLast?_append] at hlast
  cases hlast

lemma isStep_license {name : String} (h : name ∈ licenseFiles) : (Component.name name).IsStep := by
  have hall : ∀ name ∈ licenseFiles, (Component.name name).IsStep := by decide
  exact hall name h

/-- A license is not named like a manifest. -/
lemma isContent_license {name : String} (h : name ∈ licenseFiles) :
    IsContent c packs ((pack.stagePath c.buildPath).child name) := by
  refine ⟨fun h => isAbsolute_join (isAbsolute_stagePath (isAbsolute_buildPath h)) _,
    .inl ⟨name, ?_, fileName?_of_way (way_child (isStep_license h) _)⟩⟩
  rintro rfl
  exact absurd h (by decide)

/-- Whatever the jobs of a pack put down is content. -/
lemma isContent_of_puts {vendor : Vendor} (hpack : pack ∈ packs) {job : Job}
    (hjob : job ∈ Job.ofPack pack) {q : Path} (h : job.Puts c vendor q) : IsContent c packs q := by
  have hbuild (h : c.root.isAbsolute = true) : (pack.stagePath c.buildPath).isAbsolute = true :=
    isAbsolute_stagePath (isAbsolute_buildPath h)
  obtain ⟨m, -, entry, -, rfl⟩ | ⟨m, -, -, rfl⟩ | rfl := mem_ofPack.mp hjob
  · have hroot (h : c.root.isAbsolute = true) :
        (vendorRoot (pack.stagePath c.buildPath) entry).isAbsolute = true :=
      isAbsolute_vendorRoot (hbuild h) entry
    cases h with
    | package _ _ hscript =>
      exact isContent_script (fun h => isAbsolute_join (isAbsolute_join (hroot h) _) _)
        (hasExtension_join hscript)
    | description => exact isContent_packageScript hroot
    | script _ hscript =>
      exact isContent_script (fun h => isAbsolute_join (hbuild h) _) (hasExtension_join hscript)
    | json _ hjson =>
      obtain ⟨name, hname, -⟩ := exists_of_hasExtension hjson
      exact isContent_withExtension (fun h => isAbsolute_join (hbuild h) _) (fileName?_join hname)
  · cases h with
    | copy hlisted hother =>
      obtain ⟨rel, rfl, hne, hstep⟩ := hlisted
      refine ⟨fun h => isAbsolute_join (hbuild h) _, .inr ⟨pack, hpack, rel, hne, ?_, hstep, rfl⟩⟩
      rintro rfl
      exact hother rfl
  · cases h with
    | license hname => exact isContent_license hname

/-! ### All packs -/

/-- Filling the packs puts files at places of content alone, whatever comes of it, and at all that
it answers for if it succeeds. -/
lemma places_fillPacks (p : Project) :
    Places (IsContent c p.packs) known (fillPacks c p) (·.outputs) := by
  refine .consult fun vendor d _ _ => places_mapM_run vendor fun job hjob q hq => ?_
  obtain ⟨pack, hpack, hjob⟩ := List.mem_flatMap.mp hjob
  exact isContent_of_puts hpack hjob hq

/-- Writing the manifests puts files at the places of manifests alone. -/
lemma places_emitManifests (p : Project) :
    Places (fun q => ∃ pack ∈ p.packs, q = manifestPath c.buildPath pack) known
      (emitManifests c p) Output.paths :=
  .mapM_emit _ _

end Build

end AddonBuild
