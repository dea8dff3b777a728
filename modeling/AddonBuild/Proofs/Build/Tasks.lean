import AddonBuild.Proofs.Build.Remaining

/-!
# The tasks of a build

A build writes the manifests and fills the packs. Both tasks only add to the disk, so that in
whichever order they run, every file that they answer for is there in the end, and pruning leaves
just those files in the build tree.
-/

namespace AddonBuild

open AddonBuild.Path SessionM WorkM

namespace Output

variable {α : Type} {l : List α} {path : α → Path} {content : α → ByteArray}
  {s s' : Session} {outputs : List Output}

/-- What is put out for each member of a list is found at the end if no two places are one. -/
lemma of_mapM_emit (hd : s.disk.Proper)
    (h : (l.mapM fun a => emit (path a) (content a)).on s = (.ok outputs, s')) :
    paths outputs = l.map path ∧
      (l.Pairwise (fun a b => (path a).location ≠ (path b).location) →
        ∀ a ∈ l, s'.disk.entry (path a) = .ok (.file (content a))) := by
  induction l generalizing s outputs with
  | nil =>
    rw [List.mapM_nil, on_pure] at h
    rw [← Except.ok.inj (Prod.mk.inj h).1]
    exact ⟨rfl, fun _ a ha => by cases ha⟩
  | cons a l ih =>
    obtain ⟨o, os, s₁, hfirst, hrest, rfl⟩ := on_mapM_cons_eq_ok.mp h
    obtain ⟨fresh, d₁, hwrite, rfl, rfl⟩ := on_emit_eq_ok.mp hfirst
    have hwrote := (Disk.wrote_of_writeIfChanged hwrite).1
    have hd₁ : d₁.Proper := (hwrote.receives (P := fun _ => True) trivial).proper hd
    obtain ⟨hpaths, hentries⟩ := ih hd₁ hrest
    refine ⟨congrArg (path a :: ·) hpaths, fun hapart b hb => ?_⟩
    obtain ⟨hother, hapart⟩ := List.pairwise_cons.mp hapart
    rcases List.mem_cons.mp hb with rfl | hb
    · obtain ⟨hreceives, -⟩ := (Places.mapM_emit path content).of_ok hd₁ hrest
      refine hreceives.entry_eq hwrote.entry ?_
      rintro q ⟨c, hc, rfl⟩
      exact Ne.symm (hother c hc)
    · exact hentries hapart b hb

end Output

namespace Build

variable {c : Config} {p : Project} {s s' : Session} {d d' : Disk} {manifests : Nat}
  {outputs : List Output} {contents : Contents}

/-- The sessions in which the tasks of a build can have succeeded, one after the other in either
order. -/
inductive Filled (c : Config) (p : Project) (manifests : Nat) (contents : Contents)
    (s : Session) : Session → Prop
  | manifestsFirst {s₀ s₁ : Session}
      (hmanifests : (writeManifests c p).on s = (.ok manifests, s₀))
      (hcontents : (fillPacks c p).on s₀ = (.ok contents, s₁)) : Filled c p manifests contents s s₁
  | contentsFirst {s₀ s₁ : Session} (hcontents : (fillPacks c p).on s = (.ok contents, s₀))
      (hmanifests : (writeManifests c p).on s₀ = (.ok manifests, s₁)) :
      Filled c p manifests contents s s₁

lemma isAbsolute_manifestPath (h : c.root.isAbsolute = true) (pack : PlacedPack) :
    (manifestPath c.buildPath pack).isAbsolute = true :=
  isAbsolute_join (isAbsolute_stagePath (isAbsolute_buildPath h)) _

lemma on_writeManifests_eq_ok :
    (writeManifests c p).on s = (.ok manifests, s') ↔
      ∃ outputs, (emitManifests c p).on s = (.ok outputs, s') ∧
        manifests = outputs.countP (·.fresh) := by
  rw [writeManifests, on_bind_eq_ok]
  constructor
  · rintro ⟨outputs, s₁, hemit, h⟩
    rw [on_pure] at h
    obtain ⟨hcount, rfl⟩ := Prod.mk.inj h
    exact ⟨outputs, hemit, (Except.ok.inj hcount).symm⟩
  · rintro ⟨outputs, hemit, rfl⟩
    exact ⟨outputs, s', hemit, rfl⟩

lemma paths_emitManifests (hd : s.disk.Proper) (h : (emitManifests c p).on s = (.ok outputs, s')) :
    Output.paths outputs = p.packs.map (manifestPath c.buildPath) :=
  (Output.of_mapM_emit hd h).1

/-- What is left by a task that succeeds: nothing is lost, and the files that it answers for are
there. -/
structure Leaves (d d' : Disk) (paths : List Path) : Prop where
  grows : d.Grows d'
  proper : d'.Proper
  files : ∀ q ∈ paths, q.isAbsolute = true ∧ d'.isFile q = true

lemma Leaves.trans {d₁ d₂ d₃ : Disk} {first second : List Path} (h : Leaves d₁ d₂ first)
    (h' : Leaves d₂ d₃ second) : Leaves d₁ d₃ (first ++ second) where
  grows := h.grows.trans h'.grows
  proper := h'.proper
  files q hq := by
    rcases List.mem_append.mp hq with hq | hq
    · exact (h.files q hq).imp_right h'.grows.isFile
    · exact h'.files q hq

lemma leaves_writeManifests (hd : s.disk.Proper) (hroot : c.root.isAbsolute = true)
    (h : (writeManifests c p).on s = (.ok manifests, s')) :
    Leaves s.disk s'.disk (p.packs.map (manifestPath c.buildPath)) := by
  obtain ⟨outputs, hemit, -⟩ := on_writeManifests_eq_ok.mp h
  obtain ⟨hreceives, hfiles⟩ := (places_emitManifests p).of_ok hd hemit
  refine ⟨hreceives.grows, hreceives.proper hd, fun q hq => ?_⟩
  rw [← paths_emitManifests hd hemit] at hq
  obtain ⟨⟨pack, -, rfl⟩, hfile⟩ := hfiles q hq
  exact ⟨isAbsolute_manifestPath hroot pack, hfile⟩

lemma leaves_fillPacks (hd : s.disk.Proper) (hroot : c.root.isAbsolute = true)
    (h : (fillPacks c p).on s = (.ok contents, s')) :
    Leaves s.disk s'.disk contents.outputs := by
  obtain ⟨hreceives, hfiles⟩ := (places_fillPacks p).of_ok hd h
  exact ⟨hreceives.grows, hreceives.proper hd,
    fun q hq => (hfiles q hq).imp_left fun hcontent => hcontent.absolute hroot⟩

/-- All that the tasks answer for is there in the end. -/
lemma Filled.leaves (h : Filled c p manifests contents s s') (hd : s.disk.Proper)
    (hroot : c.root.isAbsolute = true) : Leaves s.disk s'.disk (Build.kept c p contents) := by
  cases h with
  | manifestsFirst hmanifests hcontents =>
    have hfirst := leaves_writeManifests hd hroot hmanifests
    exact hfirst.trans (leaves_fillPacks hfirst.proper hroot hcontents)
  | contentsFirst hcontents hmanifests =>
    have hfirst := leaves_fillPacks hd hroot hcontents
    have hboth := hfirst.trans (leaves_writeManifests hfirst.proper hroot hmanifests)
    exact ⟨hboth.grows, hboth.proper,
      fun q hq => hboth.files q (List.mem_append.mpr (List.mem_append.mp hq).symm)⟩

/-! ### Counting -/

/-- Every file that a job puts out is counted once. -/
lemma balanced_run (vendor : Vendor) (job : Job) :
    Yields (job.run c vendor) fun contents => contents.Balanced := by
  have hrecord (outputs : List Output) {contents : Contents} (h : contents.Balanced) :
      (outputs.foldl Contents.record contents).Balanced := by
    rw [Tally.Balanced, Contents.toTally_foldl_record]
    exact h.foldl_record outputs
  cases job with
  | scripts pack m entry =>
    have hstaged (plan : StagingPlan) (root : Path) :
        Yields (stageBeside c plan root) fun contents => contents.Balanced := by
      have hexecute : Yields plan.execute fun report => report.Balanced := by
        refine .of_forall fun outputs => .pure ?_
        rw [StagingReport.ofTasks, StagingReport.toTally_foldl_merge]
        refine Tally.balanced_zero.foldl_merge fun t ht => ?_
        rw [List.map_map] at ht
        obtain ⟨outputs, -, rfl⟩ := List.mem_map.mp ht
        exact Tally.balanced_ofOutputs outputs
      refine .bind hexecute.attempt fun staged hreport => .of_forall fun description => ?_
      refine .bind (.ofExcept hreport) fun report hbalanced => .of_forall fun output => .pure ?_
      exact hbalanced.record output
    refine .of_forall fun aliases => .of_forall fun plan => ?_
    refine .bind (hstaged _ _) fun staged hbalanced => ?_
    refine .of_forall fun selector => .of_forall fun sources => .of_forall fun generated => ?_
    exact .of_forall fun filled => .pure (hrecord _ hbalanced)
  | copies pack m =>
    refine .of_forall fun selector => .of_forall fun sources => .of_forall fun filled => ?_
    exact .pure (hrecord _ Tally.balanced_zero)
  | licenses pack => exact .of_forall fun filled => .pure (hrecord _ Tally.balanced_zero)

lemma balanced_fillPacks (p : Project) :
    Yields (fillPacks c p) fun contents => contents.Balanced := by
  refine .of_forall fun vendor => .bind (.mapM fun job _ => balanced_run vendor job) ?_
  refine fun parts hparts => .pure ?_
  rw [Tally.Balanced, Contents.toTally_foldl_merge]
  refine Tally.balanced_zero.foldl_merge fun t ht => ?_
  obtain ⟨part, hpart, rfl⟩ := List.mem_map.mp ht
  exact hparts part hpart

/-! ### Whole builds -/

lemma of_on_attempt {ε ε' α : Type} {work : SessionM ε α} {result : Except ε α} {s s' : Session}
    (h : (attempt work : SessionM ε' _).on s = (.ok result, s')) : work.on s = (result, s') := by
  obtain ⟨hresult, rfl⟩ := Prod.mk.inj h
  exact Prod.ext (Except.ok.inj hresult) rfl

/-- What a build that succeeds has done. -/
lemma on_run_eq_ok {report : Report} :
    (run c).on s = (.ok report, s') ↔
      loadProject c s.disk = .ok report.project ∧ ∃ s₀ s₁,
        (writeManifests c report.project).on s = (.ok report.manifests, s₀) ∧
        (fillPacks c report.project).on s₀ = (.ok report.contents, s₁) ∧ ∃ d',
          (prune c.buildPath (Build.kept c report.project report.contents)).on s₁.disk =
            (.ok report.removed, d') ∧ s' = ⟨d', s₁.stamp⟩ := by
  constructor
  · intro h
    obtain ⟨project, hload, h⟩ := SessionM.on_consult_bind_eq_ok.mp h
    obtain ⟨manifests, s₀, hmanifests, h⟩ := on_bind_eq_ok.mp h
    obtain ⟨contents, s₁, hcontents, h⟩ := on_bind_eq_ok.mp h
    obtain ⟨_, rfl, hfill⟩ := on_ofExcept_bind_eq_ok.mp h
    obtain ⟨_, rfl, hrest⟩ := on_ofExcept_bind_eq_ok.mp hfill
    obtain ⟨removed, s₂, hwork, hend⟩ := on_bind_eq_ok.mp hrest
    obtain ⟨d', hprune, rfl⟩ := on_ofDisk_eq_ok.mp hwork
    rw [on_pure] at hend
    obtain ⟨hreport, rfl⟩ := Prod.mk.inj hend
    obtain rfl := Except.ok.inj hreport
    exact ⟨hload, s₀, s₁, of_on_attempt hmanifests, of_on_attempt hcontents, d', hprune, rfl⟩
  · rintro ⟨hload, s₀, s₁, hmanifests, hcontents, d', hprune, rfl⟩
    refine SessionM.on_consult_bind_eq_ok.mpr ⟨_, hload, ?_⟩
    refine on_bind_eq_ok.mpr ⟨_, s₀, by rw [on_attempt, hmanifests], ?_⟩
    refine on_bind_eq_ok.mpr ⟨_, s₁, by rw [on_attempt, hcontents], ?_⟩
    refine on_ofExcept_bind_eq_ok.mpr ⟨_, rfl, on_ofExcept_bind_eq_ok.mpr ⟨_, rfl, ?_⟩⟩
    exact on_bind_eq_ok.mpr ⟨_, _, on_ofDisk_eq_ok.mpr ⟨d', hprune, rfl⟩, rfl⟩

/-- The description of a pack with one module. -/
def packText (kind globs : String) : String :=
  "\x7b\"uuid\":\"00000000000000000000000000000000\",\"modules\":[\x7b\"type\":\"" ++ kind ++
    "\",\"uuid\":\"00000000000000000000000000000000\",\"include\":\"" ++ globs ++ "\"\x7d]\x7d"

/-- The description of a project. -/
def packageText : String :=
  "\x7b\"name\":\"x\",\"version\":\"1.0.0\"\x7d"

/-- The description of two packs, one with all of the source tree and one with nothing in it. -/
def packsText : String :=
  "\x7b\"packs\":[" ++ packText "data" "*" ++ "," ++ packText "resources" "-" ++ "]\x7d"

/-- The project with these packs, beside what a build of other sources has left. -/
def leftoverDisk : Disk where
  entries := [
    (["dist"], .directory),
    (["dist", "build"], .directory),
    (["dist", "build", "old"], .directory),
    (["dist", "build", "old", "a"], .file "old".toUTF8),
    (["package.json"], .file packageText.toUTF8),
    (["src"], .directory),
    (["src", "a"], .file "new".toUTF8),
    (["src", "manifest.json"], .file packsText.toUTF8)]
  sorted := by decide
  rooted := by decide

lemma proper_leftoverDisk : leftoverDisk.Proper := by
  decide

lemma exists_run_leftoverDisk :
    ∃ report s', (run (.ofRoot ⟨"/"⟩)).on (.start 7 leftoverDisk) = (.ok report, s') ∧
      report.project.name = "x" := by
  have hname : ((run (.ofRoot ⟨"/"⟩)).on (.start 7 leftoverDisk)).1.toOption.map
      (·.project.name) = some "x" := by
    decide +kernel
  generalize (run (.ofRoot ⟨"/"⟩)).on (.start 7 leftoverDisk) = outcome at hname
  obtain ⟨_ | report, s'⟩ := outcome
  · cases hname
  · exact ⟨report, s', rfl, Option.some.inj hname⟩

end Build

end AddonBuild
