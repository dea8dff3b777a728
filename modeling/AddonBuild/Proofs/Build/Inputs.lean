import AddonBuild.Proofs.Build.Rebuilding

/-!
# Which tree a script comes from

A module of scripts is filled from two trees. Its inputs are the selected files of the source tree
in their order, and then the selected scripts of the generated tree that the source tree does not
have, in theirs. A script that both trees have is taken from the generated tree, at the place of the
one that it replaces. This is what comes of putting the files of the one tree and then of the other
into one table by their paths.
-/

namespace AddonBuild

open AddonBuild.Path WorkM

namespace Path

variable {p q : Path}

/-- Whether two paths are made of names alone, and the first comes before the second name by
name. -/
def Precedes (p q : Path) : Prop :=
  ∃ l k : Location, p.components = l.map .name ∧ q.components = k.map .name ∧ l < k

lemma Precedes.ne (h : p.Precedes q) : p ≠ q := by
  rintro rfl
  obtain ⟨l, k, hl, hk, hlt⟩ := h
  have heq : l = k := (List.map_injective_iff.mpr fun _ _ => Component.name.inj) (hl.symm.trans hk)
  exact List.lt_irrefl l (heq ▸ hlt)

end Path

namespace Disk

variable {d : Disk} {root r : Path} {files : List Path}

/-! ### Listings -/

/-- A listing goes through the files in the order of their names. -/
lemma pairwise_listFiles (hd : d.Proper) (hfiles : d.listFiles root = .ok files) :
    files.Pairwise Precedes := by
  obtain ⟨-, rfl⟩ | ⟨-, rfl⟩ := of_listFiles_eq_ok hfiles
  · exact .nil
  · have hcomponents (k : Location) (hk : k ∈ d.filesBelow root.location) :
        k.path.components = k.map .name := by
      obtain ⟨hne, content, hget⟩ := mem_filesBelow.mp hk
      have hthere : d.get? (root.location ++ k) ≠ none := by simp [hget]
      exact (Location.components_path (isStep_of_get? hd hne hthere)).2
    refine List.pairwise_map.mpr ?_
    refine (pairwise_filesBelow d root.location).imp_of_mem fun {k k'} hk hk' hlt => ?_
    exact ⟨k, k', hcomponents k hk, hcomponents k' hk', hlt⟩

/-- Whether a directory holds a file at a relative path made of names. -/
def Holds (d : Disk) (root r : Path) : Prop :=
  d.isDirectory root = true ∧ r.Listed ∧
    ∃ content, d.get? (root.join r).location = some (.file content)

/-- The files that a directory holds are listed, and nothing else. -/
lemma mem_listFiles_iff (hd : d.Proper) (hfiles : d.listFiles root = .ok files) :
    r ∈ files ↔ d.Holds root r := by
  constructor
  · intro h
    obtain ⟨rel, rfl, hne, hstep, hfile, -⟩ := exists_of_mem_listFiles hd hfiles h
    have hdirectory : d.isDirectory root = true := by
      obtain ⟨-, rfl⟩ | ⟨hdirectory, -⟩ := of_listFiles_eq_ok hfiles
      · cases h
      · exact hdirectory
    refine ⟨hdirectory, ⟨rel, rfl, hne, hstep⟩, ?_⟩
    rwa [location_join_path root hstep]
  · rintro ⟨hdirectory, ⟨rel, rfl, hne, hstep⟩, content, hget⟩
    rw [location_join_path root hstep] at hget
    exact mem_listFiles hdirectory hfiles hne hget

end Disk

namespace Build

variable {c : Config} {vendor : Vendor} {pack : PlacedPack} {m : Module} {entry : String}
  {d : Disk} {s s' s₁ : Session} {inputs : List Input} {relocator : Relocator}
  {staged contents : Contents} {sources generated : List Path}

/-! ### Putting inputs into a table -/

/-- Put an input into a table by its relative path: at the place of the one that has this path, or
else behind all others. -/
def Input.put (inputs : List Input) (i : Input) : List Input :=
  if i.relative ∈ inputs.map (·.relative) then
    inputs.map fun j => if j.relative = i.relative then i else j
  else inputs ++ [i]

/-- Put all files of a tree into a table. -/
def putAll (root : Path) (inputs : List Input) (files : List Path) : List Input :=
  files.foldl (fun inputs r => Input.put inputs ⟨root, r⟩) inputs

lemma putAll_cons (root : Path) (inputs : List Input) (r : Path) (files : List Path) :
    putAll root inputs (r :: files) = putAll root (Input.put inputs ⟨root, r⟩) files := rfl

/-- Take an input from another tree if that has a file of its path. -/
def Input.movedTo (root : Path) (files : List Path) (i : Input) : Input :=
  if i.relative ∈ files then ⟨root, i.relative⟩ else i

lemma put_of_mem {i : Input} (h : i.relative ∈ inputs.map (·.relative)) :
    Input.put inputs i = inputs.map fun j => if j.relative = i.relative then i else j :=
  if_pos h

lemma put_of_not_mem {i : Input} (h : i.relative ∉ inputs.map (·.relative)) :
    Input.put inputs i = inputs ++ [i] :=
  if_neg h

lemma relative_put_of_mem {i : Input} (h : i.relative ∈ inputs.map (·.relative)) :
    (Input.put inputs i).map (·.relative) = inputs.map (·.relative) := by
  rw [put_of_mem h, List.map_map]
  refine List.map_congr_left fun j _ => ?_
  dsimp only [Function.comp_apply]
  split_ifs with heq
  · exact heq.symm
  · rfl

/-- Putting in files, each of them once, moves those that are there to the new tree and adds the
others in their order. -/
lemma putAll_of_nodup {root : Path} {files : List Path} (h : files.Nodup) (inputs : List Input) :
    putAll root inputs files = inputs.map (·.movedTo root files) ++
      (files.filter (· ∉ inputs.map (·.relative))).map fun r => ⟨root, r⟩ := by
  induction files generalizing inputs with
  | nil => simp [putAll, Input.movedTo]
  | cons r files ih =>
    obtain ⟨hr, hfiles⟩ := List.nodup_cons.mp h
    rw [putAll_cons, ih hfiles]
    by_cases hmem : r ∈ inputs.map (·.relative)
    · rw [relative_put_of_mem (i := ⟨root, r⟩) hmem, put_of_mem (i := ⟨root, r⟩) hmem, List.map_map,
        List.filter_cons_of_neg (by simpa using hmem)]
      congr 1
      refine List.map_congr_left fun j _ => ?_
      rw [Function.comp_apply, Input.movedTo, Input.movedTo]
      by_cases hj : j.relative = r
      · simp [hj, hr]
      · simp [hj]
    · have hother (j : Input) (hj : j ∈ inputs) : j.relative ≠ r := fun heq =>
        hmem (heq ▸ List.mem_map_of_mem hj)
      have hnew : files.filter (· ∉ (inputs ++ [(⟨root, r⟩ : Input)]).map (·.relative)) =
          files.filter (· ∉ inputs.map (·.relative)) := by
        refine List.filter_congr fun q hq => ?_
        have hne : q ≠ r := fun heq => hr (heq ▸ hq)
        simp [hne]
      rw [put_of_not_mem (i := ⟨root, r⟩) hmem, hnew, List.filter_cons_of_pos (by simpa using hmem),
        List.map_append, List.map_cons, List.append_assoc]
      congr 1
      · refine List.map_congr_left fun j hj => ?_
        simp [Input.movedTo, hother j hj]
      · simp [Input.movedTo, hr]

/-- The inputs of a module of scripts are what is in the table once the files of the source tree
and then the scripts of the generated tree have been put there. -/
lemma putAll_putAll {sourceRoot generatedRoot : Path} (hsources : sources.Nodup)
    (hgenerated : generated.Nodup) :
    putAll generatedRoot (putAll sourceRoot [] sources) generated =
      scriptInputs sourceRoot generatedRoot sources generated := by
  have hrelative : (sources.map fun r => (⟨sourceRoot, r⟩ : Input)).map (·.relative) = sources := by
    simp [Function.comp_def]
  rw [putAll_of_nodup hsources, List.map_nil, List.map_nil, List.nil_append,
    List.filter_eq_self.mpr (by simp), putAll_of_nodup hgenerated, hrelative, List.map_map,
    scriptInputs]
  congr 1
  refine List.map_congr_left fun r _ => ?_
  rw [Function.comp_apply, Input.movedTo]
  split_ifs <;> rfl

/-! ### What is selected -/

section

variable {selector : Selector} {root : Path}

lemma mem_sourceFiles_iff (hd : d.Proper) (hsources : sourceFiles c selector d = .ok sources)
    {r : Path} :
    r ∈ sources ↔ d.Holds c.sourcePath r ∧ selector.selects r = true ∧
      (c.sourcePath.join r).same c.manifestSource = false := by
  obtain ⟨selected, hselected, hsources⟩ := bind_eq_ok.mp hsources
  obtain ⟨files, hfiles, rfl⟩ := Selector.select_eq_ok.mp hselected
  rw [← Except.ok.inj hsources, ← Disk.mem_listFiles_iff hd hfiles, List.mem_filter,
    List.mem_filter, and_assoc, Bool.not_eq_true']

lemma mem_generatedFiles_iff (hd : d.Proper)
    (hgenerated : generatedFiles selector d root = .ok generated) {r : Path} :
    r ∈ generated ↔
      d.Holds root r ∧ selector.selects r = true ∧ r.hasExtension "js" = true := by
  obtain ⟨selected, hselected, hgenerated⟩ := bind_eq_ok.mp hgenerated
  obtain ⟨files, hfiles, rfl⟩ := Selector.select_eq_ok.mp hselected
  rw [← Except.ok.inj hgenerated, ← Disk.mem_listFiles_iff hd hfiles, List.mem_filter,
    List.mem_filter, and_assoc]

lemma pairwise_sourceFiles (hd : d.Proper) (hsources : sourceFiles c selector d = .ok sources) :
    sources.Pairwise Precedes := by
  obtain ⟨selected, hselected, hsources⟩ := bind_eq_ok.mp hsources
  obtain ⟨files, hfiles, rfl⟩ := Selector.select_eq_ok.mp hselected
  rw [← Except.ok.inj hsources]
  exact ((Disk.pairwise_listFiles hd hfiles).filter _).filter _

lemma pairwise_generatedFiles (hd : d.Proper)
    (hgenerated : generatedFiles selector d root = .ok generated) :
    generated.Pairwise Precedes := by
  obtain ⟨selected, hselected, hgenerated⟩ := bind_eq_ok.mp hgenerated
  obtain ⟨files, hfiles, rfl⟩ := Selector.select_eq_ok.mp hselected
  rw [← Except.ok.inj hgenerated]
  exact ((Disk.pairwise_listFiles hd hfiles).filter _).filter _

/-- The files to choose from can be listed if both trees can be. -/
lemma exists_moduleInputs_iff (hd : d.Proper) (hselector : Selector.parse m.globs = .ok selector) :
    (∃ inputs, moduleInputs c pack m d = .ok inputs) ↔
      d.Listable c.sourcePath ∧ d.Listable (pack.stagePath c.generatedPath) := by
  rw [← Disk.exists_listFiles_iff hd, ← Disk.exists_listFiles_iff hd]
  constructor
  · rintro ⟨inputs, h⟩
    obtain ⟨_, _, _, -, hsources, hgenerated, -⟩ := moduleInputs_eq_ok.mp h
    obtain ⟨_, hselected, -⟩ := bind_eq_ok.mp hsources
    obtain ⟨_, hselected', -⟩ := bind_eq_ok.mp hgenerated
    obtain ⟨files, hfiles, -⟩ := Selector.select_eq_ok.mp hselected
    obtain ⟨files', hfiles', -⟩ := Selector.select_eq_ok.mp hselected'
    exact ⟨⟨files, hfiles⟩, files', hfiles'⟩
  · rintro ⟨⟨files, hfiles⟩, files', hfiles'⟩
    exact ⟨_, moduleInputs_eq_ok.mpr ⟨selector, _, _, hselector,
      bind_eq_ok.mpr ⟨_, Selector.select_eq_ok.mpr ⟨files, hfiles, rfl⟩, rfl⟩,
      bind_eq_ok.mpr ⟨_, Selector.select_eq_ok.mpr ⟨files', hfiles', rfl⟩, rfl⟩, rfl⟩⟩

end

section

variable {sourceRoot generatedRoot : Path}

lemma map_relative_scriptInputs :
    (scriptInputs sourceRoot generatedRoot sources generated).map (·.relative) =
      sources ++ generated.filter (· ∉ sources) := by
  simp [scriptInputs, Function.comp_def]

lemma of_mem_scriptInputs {i : Input}
    (h : i ∈ scriptInputs sourceRoot generatedRoot sources generated) :
    i.root = (if i.relative ∈ generated then generatedRoot else sourceRoot) ∧
      (i.relative ∉ generated → i.relative ∈ sources) := by
  obtain h | h := List.mem_append.mp h
  · obtain ⟨r, hr, rfl⟩ := List.mem_map.mp h
    exact ⟨rfl, fun _ => hr⟩
  · obtain ⟨r, hr, rfl⟩ := List.mem_map.mp h
    have hmem := (List.mem_filter.mp hr).1
    exact ⟨(if_pos hmem).symm, fun hnot => absurd hmem hnot⟩

/-- Every generated script is an input, taken from the generated tree. -/
lemma mem_scriptInputs_of_generated {r : Path} (h : r ∈ generated) :
    ⟨generatedRoot, r⟩ ∈ scriptInputs sourceRoot generatedRoot sources generated := by
  by_cases hsource : r ∈ sources
  · refine List.mem_append_left _ (List.mem_map.mpr ⟨r, hsource, ?_⟩)
    rw [if_pos h]
  · refine List.mem_append_right _ (List.mem_map_of_mem (List.mem_filter.mpr ⟨h, ?_⟩))
    simpa using hsource

end

/-! ### Filling from the inputs -/

/-- Find the aliases of a module of scripts, and stage what lies beside it. -/
def stageScripts (c : Config) (vendor : Vendor) (pack : PlacedPack) (entry : String) :
    SessionM Fault (Relocator × Contents) := do
  let root := vendorRoot (pack.stagePath c.buildPath) entry
  let aliases ← SessionM.consult (scriptAliases c vendor root)
  let plan ← MonadExcept.ofExcept (StagingPlan.ofVendor vendor root)
  let staged ← stageBeside c (plan.withReserved c.reserved) root
  return ({ Relocator.ofAliases aliases with reserved := c.reserved }, staged)

/-- Put out what becomes of the inputs, one after the other, besides what was staged. -/
def fillInputs (buildPath : Path) (relocator : Relocator) (staged : Contents)
    (inputs : List Input) : SessionM Fault Contents := do
  let filled ← (inputs.map (·.scriptProduct relocator buildPath)).mapM putOut
  return (filled.filterMap id).foldl Contents.record staged

/-- To ask one question after the other is to ask them at once. -/
lemma consult_bind {ε α β : Type} (question : Disk → Except ε α) (next : α → Disk → Except ε β) :
    (SessionM.consult fun d => question d >>= (next · d)) =
      SessionM.consult question >>= fun a => SessionM.consult (next a) := by
  refine ext_on fun s => ?_
  rw [SessionM.on_consult, on_bind, SessionM.on_consult]
  cases question s.disk with
  | error e => rfl
  | ok a =>
    dsimp only
    rw [SessionM.on_consult]
    rfl

/-- The trees are listed one after the other. -/
lemma consult_moduleInputs (c : Config) (pack : PlacedPack) (m : Module) :
    SessionM.consult (moduleInputs c pack m) = (do
      let selector ← MonadExcept.ofExcept (Selector.parse m.globs)
      let sources ← SessionM.consult (sourceFiles c selector)
      let generated ← SessionM.consult
        (generatedFiles selector · (pack.stagePath c.generatedPath))
      return scriptInputs c.sourcePath (pack.stagePath c.generatedPath) sources generated) := by
  cases hselector : Selector.parse m.globs with
  | error fault =>
    have hinputs : moduleInputs c pack m = fun _ => .error fault := by
      funext d
      rw [moduleInputs, hselector]
      rfl
    rw [hinputs]
    rfl
  | ok selector =>
    have hinputs : moduleInputs c pack m = fun d => sourceFiles c selector d >>= fun sources =>
        generatedFiles selector d (pack.stagePath c.generatedPath) >>= fun generated =>
          .ok (scriptInputs c.sourcePath (pack.stagePath c.generatedPath) sources generated) := by
      funext d
      rw [moduleInputs, hselector, ok_bind]
      rfl
    have hchosen :
        (MonadExcept.ofExcept (.ok selector) : SessionM Fault Selector) = pure selector := rfl
    rw [hinputs, consult_bind, hchosen, pure_bind]
    refine bind_congr fun sources => (consult_bind _ _).trans ?_
    exact bind_congr fun generated => rfl

/-- A module of scripts is filled from its inputs, once everything beside it has been staged. -/
lemma fillScripts_eq (c : Config) (vendor : Vendor) (pack : PlacedPack) (m : Module)
    (entry : String) :
    fillScripts c vendor pack m entry = (do
      let (relocator, staged) ← stageScripts c vendor pack entry
      let inputs ← SessionM.consult (moduleInputs c pack m)
      fillInputs (pack.stagePath c.buildPath) relocator staged inputs) := by
  rw [fillScripts, stageScripts, consult_moduleInputs]
  simp only [bind_assoc, pure_bind, fillInputs, List.mapM_map]
  rfl

/-- Staging leaves a proper disk. -/
lemma proper_of_stageScripts (hd : s.disk.Proper)
    (h : (stageScripts c vendor pack entry).on s = (.ok (relocator, staged), s₁)) :
    s₁.disk.Proper := by
  obtain ⟨aliases, -, h⟩ := SessionM.on_consult_bind_eq_ok.mp h
  obtain ⟨plan, -, h⟩ := on_ofExcept_bind_eq_ok.mp h
  obtain ⟨outputs, s₂, hstaged, h⟩ := on_bind_eq_ok.mp h
  obtain ⟨-, rfl⟩ := Prod.mk.inj h
  have hplaces : SessionM.Places (fun _ => True) [] (stageBeside c (plan.withReserved c.reserved)
      (vendorRoot (pack.stagePath c.buildPath) entry)) (·.outputs) :=
    places_stageBeside trivial fun _ _ _ _ _ => trivial
  exact (hplaces.of_ok hd hstaged).1.proper hd

/-- Whatever was made is named after its maker's answer, and is there in the end as it was made if
all that was put out went to places of its own. -/
lemma answered_of_mapM_putOut {makes : List (Disk → Except Fault (Option Product))}
    {outputs : List (Option Output)} (h : (makes.mapM putOut).on s = (.ok outputs, s')) :
    List.Forall₂ (fun make output => ∃ e product, make e = .ok product ∧
      output.map Output.path = product.map Product.path ∧
      (((outputs.filterMap id).Pairwise fun a b => a.path.location ≠ b.path.location) →
        s.disk.Midway s'.disk e ∧
          ∀ made ∈ product, s'.disk.entry made.path = .ok (.file made.content)))
      makes outputs := by
  by_cases hapart :
      (outputs.filterMap id).Pairwise fun a b => a.path.location ≠ b.path.location
  · refine (made_of_mapM_putOut h hapart).imp ?_
    rintro make output ⟨e, product, hmidway, hmake, hpath, hthere⟩
    exact ⟨e, product, hmake, hpath, fun _ => ⟨hmidway, hthere⟩⟩
  · refine (exists_of_mapM_putOut h).imp ?_
    rintro make output ⟨e, product, hmake, hpath⟩
    exact ⟨e, product, hmake, hpath, fun h => absurd h hapart⟩

/-- A script among the inputs is put out. -/
lemma put_out_of_script {buildPath : Path} {i : Input} (hi : i ∈ inputs)
    (hscript : i.relative.hasExtension "js" = true)
    (h : (fillInputs buildPath relocator staged inputs).on s = (.ok contents, s')) :
    buildPath.join i.relative ∈ contents.outputs ∧
      ((contents.outputs.map location).Nodup → ∃ e script, s.disk.Midway s'.disk e ∧
        relocator.relocateFile e i.root i.relative buildPath = .ok script ∧
        s'.disk.entry (buildPath.join i.relative) = .ok (.file script.contents.toUTF8)) := by
  obtain ⟨outputs, s₂, hfill, h⟩ := on_bind_eq_ok.mp h
  obtain ⟨hcontents, rfl⟩ := Prod.mk.inj h
  obtain rfl := Except.ok.inj hcontents
  obtain ⟨before, after, rfl⟩ := List.mem_iff_append.mp hi
  obtain ⟨first, output, last, houtputs, -, e, product, hmake, hpath, hthere⟩ :=
    forall₂_append_cons (List.forall₂_map_left_iff.mp (answered_of_mapM_putOut hfill))
  rw [Input.scriptProduct, if_pos hscript] at hmake
  obtain ⟨script, hrelocate, hproduct⟩ := bind_eq_ok.mp hmake
  obtain rfl := Except.ok.inj hproduct
  obtain ⟨o, rfl, ho⟩ := Option.map_eq_some_iff.mp hpath
  have hplace : o.path = buildPath.join i.relative := ho.trans (relocateFile_destination hrelocate)
  have hmem : o ∈ outputs.filterMap id := by
    rw [houtputs]
    exact List.mem_filterMap.mpr ⟨some o, List.mem_append_right _ List.mem_cons_self, rfl⟩
  rw [Contents.outputs_foldl_record]
  refine ⟨List.mem_append_right _ (hplace ▸ List.mem_map_of_mem hmem), fun hnodup => ?_⟩
  rw [List.map_append] at hnodup
  obtain ⟨hmidway, hentry⟩ := hthere (pairwise_of_nodup (List.nodup_append.mp hnodup).2.1)
  exact ⟨e, script, hmidway, hrelocate, hplace ▸ ho ▸ hentry _ rfl⟩

/-- A module of scripts is filled from what is selected in the two trees that staging has left, if
the trees can be listed. Every path comes up once: first those of the source tree, in their order,
but for the description of the packs, and then those of the generated scripts that the source tree
does not have, in theirs. Where the generated tree has a script of the path, it is taken from there,
as if it had been put over what the source tree has. So every generated script is put out, and
nothing else is taken from the generated tree. -/
theorem fillScripts_from_trees {selector : Selector} (hd : s.disk.Proper)
    (hstage : (stageScripts c vendor pack entry).on s = (.ok (relocator, staged), s₁))
    (hselector : Selector.parse m.globs = .ok selector) :
    let buildPath := pack.stagePath c.buildPath
    let generatedPath := pack.stagePath c.generatedPath
    ((∃ inputs, moduleInputs c pack m s₁.disk = .ok inputs) ↔
      s₁.disk.Listable c.sourcePath ∧ s₁.disk.Listable generatedPath) ∧
    (∀ fault, moduleInputs c pack m s₁.disk = .error fault →
      (fillScripts c vendor pack m entry).on s = (.error fault, s₁)) ∧
    ∀ inputs, moduleInputs c pack m s₁.disk = .ok inputs → ∃ sources generated,
      sourceFiles c selector s₁.disk = .ok sources ∧
      generatedFiles selector s₁.disk generatedPath = .ok generated ∧
      inputs = scriptInputs c.sourcePath generatedPath sources generated ∧
      (fillScripts c vendor pack m entry).on s =
        (fillInputs buildPath relocator staged inputs).on s₁ ∧
      (inputs.map (·.relative)).Nodup ∧
      inputs.map (·.relative) = sources ++ generated.filter (· ∉ sources) ∧
      sources.Pairwise Precedes ∧ generated.Pairwise Precedes ∧
      (∀ r, r ∈ sources ↔ s₁.disk.Holds c.sourcePath r ∧ selector.selects r = true ∧
        (c.sourcePath.join r).same c.manifestSource = false) ∧
      (∀ r, r ∈ generated ↔ s₁.disk.Holds generatedPath r ∧ selector.selects r = true ∧
        r.hasExtension "js" = true) ∧
      (∀ i ∈ inputs, i.root = if i.relative ∈ generated then generatedPath else c.sourcePath) ∧
      inputs = putAll generatedPath (putAll c.sourcePath [] sources) generated ∧
      (∀ i ∈ inputs, i.relative.hasExtension "js" = false →
        i.root = c.sourcePath ∧ i.relative ∈ sources) ∧
      ∀ contents s', (fillScripts c vendor pack m entry).on s = (.ok contents, s') →
        ∀ r ∈ generated, buildPath.join r ∈ contents.outputs ∧
          s'.disk.isFile (buildPath.join r) = true ∧
          ((contents.outputs.map location).Nodup → ∃ e script, s₁.disk.Midway s'.disk e ∧
            relocator.relocateFile e generatedPath r buildPath = .ok script ∧
            s'.disk.entry (buildPath.join r) = .ok (.file script.contents.toUTF8)) := by
  intro buildPath generatedPath
  have hd₁ := proper_of_stageScripts hd hstage
  have hstaged : (fillScripts c vendor pack m entry).on s =
      (SessionM.consult (moduleInputs c pack m) >>= fillInputs buildPath relocator staged).on
        s₁ := by
    rw [fillScripts_eq, on_bind_of_ok hstage]
  refine ⟨exists_moduleInputs_iff hd₁ hselector, fun fault hfault => ?_, fun inputs hinputs => ?_⟩
  · rw [hstaged, on_bind_of_error (by rw [SessionM.on_consult, hfault])]
  -- from here on both trees are listed, and the inputs are put in one after the other
  obtain ⟨selector', sources, generated, hselector', hsources, hgenerated, rfl⟩ :=
    moduleInputs_eq_ok.mp hinputs
  obtain rfl := Except.ok.inj (hselector'.symm.trans hselector)
  have hrun := hstaged.trans (on_bind_of_ok (by rw [SessionM.on_consult, hinputs]))
  have hsourcesOrder := pairwise_sourceFiles hd₁ hsources
  have hgeneratedOrder := pairwise_generatedFiles hd₁ hgenerated
  have hsourcesOnce : sources.Nodup := hsourcesOrder.imp Precedes.ne
  have hgeneratedOnce : generated.Nodup := hgeneratedOrder.imp Precedes.ne
  refine ⟨sources, generated, hsources, hgenerated, rfl, hrun,
    nodup_scriptInputs hsourcesOnce hgeneratedOnce, map_relative_scriptInputs, hsourcesOrder,
    hgeneratedOrder, fun r => mem_sourceFiles_iff hd₁ hsources,
    fun r => mem_generatedFiles_iff hd₁ hgenerated, fun i hi => (of_mem_scriptInputs hi).1,
    (putAll_putAll hsourcesOnce hgeneratedOnce).symm, ?_, ?_⟩
  · intro i hi hother
    obtain ⟨hroot, hsource⟩ := of_mem_scriptInputs hi
    have hnot : i.relative ∉ generated := fun hmem => by
      rw [((mem_generatedFiles_iff hd₁ hgenerated).mp hmem).2.2] at hother
      cases hother
    exact ⟨hroot.trans (if_neg hnot), hsource hnot⟩
  · intro contents s' h r hr
    have hfiles := ((places_fillScripts (c := c) (P := fun _ => True) vendor pack m entry
      fun _ _ => trivial).of_ok hd h).2
    have hscript := ((mem_generatedFiles_iff hd₁ hgenerated).mp hr).2.2
    rw [hrun] at h
    obtain ⟨hput, hthere⟩ := put_out_of_script (mem_scriptInputs_of_generated hr) hscript h
    exact ⟨hput, (hfiles _ hput).2, hthere⟩

/-! ### Two trees -/

/-- A project with scripts of which one has been generated anew, and another one besides. -/
def overlaidDisk : Disk where
  entries := [
    (["dist"], .directory),
    (["dist", "generated"], .directory),
    (["dist", "generated", "scripts"], .directory),
    (["dist", "generated", "scripts", "b.js"], .file "let b;".toUTF8),
    (["dist", "generated", "scripts", "c.json"], .file "2".toUTF8),
    (["dist", "generated", "scripts", "d.js"], .file "".toUTF8),
    (["package.json"], .file packageText.toUTF8),
    (["src"], .directory),
    (["src", "scripts"], .directory),
    (["src", "scripts", "a.js"], .file "import './b';".toUTF8),
    (["src", "scripts", "b.js"], .file "".toUTF8),
    (["src", "scripts", "c.json"], .file "1".toUTF8)]
  sorted := by decide
  rooted := by decide

/-- Its inputs. -/
def overlaidInputs : List Input :=
  [⟨⟨"/src"⟩, ⟨"scripts/a.js"⟩⟩, ⟨⟨"/dist/generated"⟩, ⟨"scripts/b.js"⟩⟩,
    ⟨⟨"/src"⟩, ⟨"scripts/c.json"⟩⟩, ⟨⟨"/dist/generated"⟩, ⟨"scripts/d.js"⟩⟩]

/-- A process has started to build it. -/
def overlaidSession : Session :=
  .start 7 overlaidDisk

/-- The generated scripts are taken, the generated value is not. -/
theorem fillScripts_from_trees_overlaidDisk : ∃ relocator staged s₁ contents s',
    (fillScripts (.ofRoot ⟨"/"⟩) ⟨[]⟩ scriptPack scriptModule "scripts/a.js").on overlaidSession =
      (fillInputs ⟨"/dist/build"⟩ relocator staged overlaidInputs).on s₁ ∧
    (fillScripts (.ofRoot ⟨"/"⟩) ⟨[]⟩ scriptPack scriptModule "scripts/a.js").on overlaidSession =
      (.ok contents, s') ∧
    s'.disk.isFile ⟨"/dist/build/scripts/d.js"⟩ = true := by
  have hselected : ((stageScripts (.ofRoot ⟨"/"⟩) ⟨[]⟩ scriptPack "scripts/a.js").on
      overlaidSession).1.toOption.isSome = true ∧
      (moduleInputs (.ofRoot ⟨"/"⟩) scriptPack scriptModule ((stageScripts (.ofRoot ⟨"/"⟩) ⟨[]⟩
        scriptPack "scripts/a.js").on overlaidSession).2.disk).toOption = some overlaidInputs := by
    decide +kernel
  have hfilled : ((fillScripts (.ofRoot ⟨"/"⟩) ⟨[]⟩ scriptPack scriptModule "scripts/a.js").on
      overlaidSession).1.toOption.isSome = true := by
    decide +kernel
  generalize hstage : (stageScripts (.ofRoot ⟨"/"⟩) ⟨[]⟩ scriptPack "scripts/a.js").on
    overlaidSession = outcome at hselected
  obtain ⟨_ | ⟨relocator, staged⟩, s₁⟩ := outcome
  · cases hselected.1
  obtain ⟨-, hinputs⟩ := hselected
  dsimp only at hinputs
  generalize hlisted : moduleInputs (.ofRoot ⟨"/"⟩) scriptPack scriptModule s₁.disk = answer
    at hinputs
  obtain _ | inputs := answer
  · cases hinputs
  obtain rfl := Option.some.inj hinputs
  generalize hfill : (fillScripts (.ofRoot ⟨"/"⟩) ⟨[]⟩ scriptPack scriptModule "scripts/a.js").on
    overlaidSession = outcome at hfilled ⊢
  obtain ⟨_ | contents, s'⟩ := outcome
  · cases hfilled
  obtain ⟨selector, -, -, hselector, -⟩ := moduleInputs_eq_ok.mp hlisted
  obtain ⟨-, -, htaken⟩ :=
    fillScripts_from_trees (s := overlaidSession) (by decide) hstage hselector
  obtain ⟨sources, generated, -, -, -, hrun, -, -, -, -, -, -, hroots, -, -, hships⟩ :=
    htaken overlaidInputs hlisted
  have hplaces : scriptPack.stagePath (Config.ofRoot ⟨"/"⟩).buildPath = ⟨"/dist/build"⟩ ∧
      (Config.ofRoot ⟨"/"⟩).sourcePath = ⟨"/src"⟩ := by
    decide +kernel
  rw [hplaces.1] at hrun hships
  have hgenerated : (⟨"scripts/d.js"⟩ : Path) ∈ generated := by
    by_contra hnot
    have hroot := hroots ⟨⟨"/dist/generated"⟩, ⟨"scripts/d.js"⟩⟩ (by decide)
    rw [if_neg hnot, hplaces.2] at hroot
    exact absurd hroot (by decide)
  have hjoin : (⟨"/dist/build"⟩ : Path).join ⟨"scripts/d.js"⟩ = ⟨"/dist/build/scripts/d.js"⟩ := by
    decide +kernel
  have hfile := (hships contents s' hfill _ hgenerated).2.1
  exact ⟨relocator, staged, s₁, contents, s', hfill.symm.trans hrun, rfl, hjoin ▸ hfile⟩

end Build

end AddonBuild
