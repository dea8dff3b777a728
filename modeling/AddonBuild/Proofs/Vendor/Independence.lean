import AddonBuild.Proofs.Disk.Agreement
import AddonBuild.Proofs.Vendor.Interleaving
import AddonBuild.Proofs.Vendor.Trees

/-!
# Staging whatever was there before

A staging comes out alike on two disks that differ in the tree it writes to alone, whatever the
order of its steps, as long as neither what stands there nor what other packages do answers a
question that is asked while a module is relocated.
-/

namespace AddonBuild

open AddonBuild.Path Relation

namespace StagingPlan

/-- In the tree under the root there is no directory in the place of an output, and no file on the
way to one. -/
structure ClearUnder (root : Path) (jobs : List StagingJob) (d : Disk) : Prop where
  passage : ∀ j ∈ jobs, ∀ k ∈ j.output.passage, root.location <+: k →
    ∀ content, d.get? k ≠ some (.file content)
  place : ∀ j ∈ jobs, root.location <+: j.output.location →
    d.get? j.output.location ≠ some .directory

/-- Neither leftovers nor other packages have a say in how a module is staged in two sessions. What
is asked for while it is relocated is present on both disks, be it planned or found, or it is on
neither and lies on the way to no output. No other text is staged in its place, no output replaces a
source, and nothing is taken for what is put out. Beside a module there is room for its new content,
whatever number the write gets, or there is none for any number and it has to be written. -/
structure Steady (plan : StagingPlan) (s₁ s₂ : Session) : Prop where
  asked : ∀ j ∈ plan.jobsOn s₁.disk, ∀ text, s₁.disk.readText j.source = .ok text →
    ∀ p ∈ (plan.relocatorOn s₁.disk).askedForScript
        ((plan.relocatorOn s₁.disk).presence s₁.disk) j.source text,
      (plan.relocatorOn s₁.disk).presence s₂.disk p =
          (plan.relocatorOn s₁.disk).presence s₁.disk p ∧
        ((plan.relocatorOn s₁.disk).presence s₁.disk p = true ∨
          ∀ i ∈ plan.jobsOn s₁.disk, p.location ∉ i.output.trail)
  once : ∀ i ∈ plan.jobsOn s₁.disk, ∀ j ∈ plan.jobsOn s₁.disk,
    i.output.location = j.output.location → ∀ t u,
      i.script (plan.relocatorOn s₁.disk) s₁.disk = .ok t →
        j.script (plan.relocatorOn s₁.disk) s₁.disk = .ok u → t.contents = u.contents
  apart : ∀ i ∈ plan.jobsOn s₁.disk, ∀ j ∈ plan.jobsOn s₁.disk,
    i.output.location ≠ j.source.location
  room : ∀ j ∈ plan.jobsOn s₁.disk,
    (Roomy (plan.relocatorOn s₁.disk) (plan.jobsOn s₁.disk) s₁.disk s₁ j ∧
        Roomy (plan.relocatorOn s₁.disk) (plan.jobsOn s₁.disk) s₁.disk s₂ j) ∨
      (Cramped (plan.relocatorOn s₁.disk) (plan.jobsOn s₁.disk) s₁.disk s₁ j ∧
        Cramped (plan.relocatorOn s₁.disk) (plan.jobsOn s₁.disk) s₁.disk s₂ j)
  unmistaken₁ : Unmistaken (plan.relocatorOn s₁.disk) (plan.jobsOn s₁.disk) s₁.disk s₁
  unmistaken₂ : Unmistaken (plan.relocatorOn s₁.disk) (plan.jobsOn s₁.disk) s₁.disk s₂

/-! ### What is listed -/

variable {plan : StagingPlan} {root : Path} {d d' : Disk}

lemma of_mem_jobsOn {j : StagingJob} (h : j ∈ plan.jobsOn d) :
    j.task ∈ plan.tasks ∧ ∃ files, d.listFiles j.task.source = .ok files ∧ j.relative ∈ files := by
  rw [jobsOn] at h
  split at h
  · next work hlisting =>
    obtain ⟨⟨task, modules⟩, hitem, hj⟩ := List.mem_flatMap.mp h
    obtain ⟨relative, hrelative, rfl⟩ := List.mem_map.mp hj
    obtain ⟨t, ht, hmodules⟩ := exists_of_mem_right (mapM_eq_ok.mp hlisting) hitem
    obtain ⟨found, hfound, heq⟩ := bind_eq_ok.mp hmodules
    obtain ⟨rfl, rfl⟩ := Prod.mk.inj (Except.ok.inj heq)
    obtain ⟨selector, files, -, hfiles, rfl⟩ := StagingTask.modules_eq_ok.mp hfound
    exact ⟨ht, files, hfiles, List.mem_of_mem_filter (List.mem_of_mem_filter hrelative)⟩
  · cases h

/-- Disks that agree outside of the tree that is written to list the same modules. -/
lemma listing_congr (hd : d.Proper) (hagree : Disk.AgreesOutside root d d')
    (hsources : ∀ task ∈ plan.tasks, task.source.Outside root) :
    plan.listing d = plan.listing d' := by
  rw [listing, listing]
  generalize plan.tasks = tasks at hsources
  induction tasks with
  | nil => rfl
  | cons task tasks ih =>
    obtain ⟨htask, hrest⟩ := List.forall_mem_cons.mp hsources
    have hmodules : task.modules d = task.modules d' := by
      simp only [StagingTask.modules, Selector.select, Disk.listFiles_congr hd hagree htask]
    rw [List.mapM_cons, List.mapM_cons, ih hrest, hmodules]

lemma jobsOn_congr (hd : d.Proper) (hagree : Disk.AgreesOutside root d d')
    (hsources : ∀ task ∈ plan.tasks, task.source.Outside root) :
    plan.jobsOn d = plan.jobsOn d' := by
  rw [jobsOn, jobsOn, listing_congr hd hagree hsources]

/-- A planned destination counts as present by every clean path that leads there. -/
lemma presence_of_planned {j : StagingJob} (hj : j ∈ plan.jobsOn d)
    (hdestination : j.output.isAbsolute = true) {p : Path} (hp : p.isAbsolute = true)
    (hclean : p.clean = p) (hlocation : p.location = j.output.location) (d' : Disk) :
    (plan.relocatorOn d).presence d' p = true := by
  have hway : p.way = j.output.location.map .name := by
    rw [← hlocation, ← way_clean hp, hclean]
  have hsame : p.same j.planned = true := by
    have hplanned : j.planned = j.output.clean := rfl
    rw [same, decide_eq_true_eq, components_of_isAbsolute hp, hplanned,
      components_of_isAbsolute (clean_isAbsolute hdestination), way_clean hdestination, hway]
  rw [Relocator.presence, Bool.or_eq_true]
  exact .inl (List.any_eq_true.mpr ⟨_, List.mem_map_of_mem hj, hsame⟩)

/-! ### Two sessions -/

/-- How a staging that lists modules can end. -/
lemma Ends.of_listing {s : Session} {work : List (StagingTask × List Path)} {o : Option Disk}
    (h : plan.Ends s o) (hlisting : plan.listing s.disk = .ok work) :
    (o = none ∧ ∃ st, plan.Reaches s st ∧ st.Fails (plan.relocatorOn s.disk)) ∨
      ∃ s', o = some s'.disk ∧ plan.Reaches s ⟨s', [], []⟩ := by
  cases h with
  | unlisted hfault =>
    rw [hlisting] at hfault
    cases hfault
  | failed _ hrun hfails => exact .inl ⟨rfl, _, hrun, hfails⟩
  | done _ hrun => exact .inr ⟨_, rfl, hrun⟩

lemma Ends.of_unlisted {s : Session} {fault : Fault} {o : Option Disk} (h : plan.Ends s o)
    (hlisting : plan.listing s.disk = .error fault) : o = none := by
  cases h with
  | unlisted => rfl
  | failed => rfl
  | done hwork =>
    rw [hlisting] at hwork
    cases hwork

/-- What stands in the way outside of the tree stands there on both disks. -/
lemma ClearUnder.clear {jobs : List StagingJob} (h : ClearUnder root jobs d')
    (hclear : Clear jobs d) (hagree : Disk.AgreesOutside root d d') : Clear jobs d' where
  passage j hj k hk content := by
    by_cases hroot : root.location <+: k
    · exact h.passage j hj k hk hroot content
    · exact hagree k hroot ▸ hclear.passage j hj k hk content
  place j hj := by
    by_cases hroot : root.location <+: j.output.location
    · exact h.place j hj hroot
    · exact hagree _ hroot ▸ hclear.place j hj

/-- The tasks of a plan lead from the packages to their places under the root. -/
lemma tasks_eq {v : Vendor} {reserved : List String}
    (h : (ofVendor v root).map (withReserved · reserved) = .ok plan) :
    plan.tasks = v.packages.map (StagingTask.ofPackage root) := by
  obtain ⟨found, hfound, rfl⟩ := map_eq_ok.mp h
  obtain ⟨aliases, -, hrest⟩ := bind_eq_ok.mp hfound
  obtain ⟨table, -, hplan⟩ := bind_eq_ok.mp hrest
  obtain rfl := Except.ok.inj hplan
  rfl

/-- Modules that are listed are relocated alike in both sessions, at every moment. -/
lemma Steady.undisturbed {s₁ s₂ : Session} (h : plan.Steady s₁ s₂)
    (habsolute : ∀ task ∈ plan.tasks, task.destination.isAbsolute = true)
    (hsources : ∀ task ∈ plan.tasks, task.source.Outside root) (hproper : s₁.disk.Proper)
    (hagree : Disk.AgreesOutside root s₁.disk s₂.disk) :
    Undisturbed (plan.relocatorOn s₁.disk) (plan.jobsOn s₁.disk) s₁.disk s₁.disk ∧
      Undisturbed (plan.relocatorOn s₁.disk) (plan.jobsOn s₁.disk) s₁.disk s₂.disk := by
  have habsolute : ∀ j ∈ plan.jobsOn s₁.disk, j.output.isAbsolute = true := fun j hj =>
    isAbsolute_join (habsolute _ (of_mem_jobsOn hj).1) _
  have hsource : ∀ j ∈ plan.jobsOn s₁.disk, j.source.EndsInName ∧
      (∀ k ∈ j.source.passage,
        s₁.disk.get? k = some .directory ∧ s₂.disk.get? k = some .directory) ∧
      ∃ content, s₁.disk.get? j.source.location = some (.file content) ∧
        s₂.disk.get? j.source.location = some (.file content) := by
    intro j hj
    obtain ⟨htask, files, hfiles, hrelative⟩ := of_mem_jobsOn hj
    have houtside := hsources _ htask
    -- a source and the way to it lie outside of the root, where the disks agree
    obtain ⟨hname, hpassage, ⟨content, hcontent⟩, hbelow⟩ :=
      Disk.join_of_mem_listFiles hproper hfiles hrelative
    refine ⟨hname, fun k hk => ?_, content, hcontent, ?_⟩
    · obtain ⟨hdirectory, hplace⟩ := hpassage k hk
      refine ⟨hdirectory, ?_⟩
      rw [← hagree k (hplace.elim (houtside.trail k) houtside.below), hdirectory]
    · exact (hagree _ (houtside.below hbelow)).symm.trans hcontent
  constructor
  · exact {
      absolute := habsolute
      source := fun j hj => by
        obtain ⟨hname, hpassage, content, hcontent, -⟩ := hsource j hj
        exact ⟨hname, fun k hk => ⟨(hpassage k hk).1, (hpassage k hk).1⟩, content, hcontent,
          hcontent⟩
      asked := fun j hj text htext p hp => ⟨rfl, (h.asked j hj text htext p hp).2⟩
      apart := h.apart
      once := h.once }
  · exact {
      absolute := habsolute
      source := hsource
      asked := h.asked
      apart := h.apart
      once := h.once }

/-- A staging does not fail if another one, on a disk that agrees, has come to its end. -/
lemma not_fails_of_done {jobs : List StagingJob} {r : Relocator} {base : Disk}
    {s s' done : Session} {st : Staging} (hd : Undisturbed r jobs base s.disk)
    (hs : Unmistaken r jobs base s) (hd' : Undisturbed r jobs base s'.disk)
    (hs' : Unmistaken r jobs base s')
    (hroom : ∀ j ∈ jobs, Roomy r jobs base s' j ∨ Cramped r jobs base s j)
    (hagree : Disk.AgreesOutside root s.disk s'.disk) (hunder : ClearUnder root jobs s'.disk)
    (hdone : ReflTransGen (Staging.Step r) ⟨s, jobs, []⟩ ⟨done, [], []⟩)
    (hrun : ReflTransGen (Staging.Step r) ⟨s', jobs, []⟩ st) : ¬ st.Fails r := by
  obtain ⟨rest, hrest⟩ := exists_rest jobs s
  obtain ⟨rest', hrest'⟩ := exists_rest jobs s'
  have hinv := Staging.Inv.run (hd.of_rest hs hrest) hs hrest hdone
  have hd' := hd'.of_rest hs' hrest'
  exact (Staging.Inv.run hd' hs' hrest' hrun).not_fails hd' hs' hrest' hinv.placeable
    (fun j hj => (hroom j hj).resolve_right (hinv.not_cramped hrest hj))
    (hunder.clear (hinv.clear hs hrest) hagree)

/-- At the end of a staging every module stands in its place. -/
lemma entry_of_done {jobs : List StagingJob} {r : Relocator} {base : Disk} {s done : Session}
    (hd : Undisturbed r jobs base s.disk) (hs : Unmistaken r jobs base s)
    (hdone : ReflTransGen (Staging.Step r) ⟨s, jobs, []⟩ ⟨done, [], []⟩) {j : StagingJob}
    (hj : j ∈ jobs) :
    ∃ t, j.script r base = .ok t ∧ done.disk.entry j.output = .ok (.file t.contents.toUTF8) := by
  obtain ⟨rest, hrest⟩ := exists_rest jobs s
  exact (Staging.Inv.run (hd.of_rest hs hrest) hs hrest hdone).entry_of_done hj

/-- Where nothing was left to wait, replacing comes to the same as writing at every moment. -/
lemma isFaithful_of_unused {jobs : List StagingJob} {r : Relocator} {base : Disk} {s : Session}
    (hd : Undisturbed r jobs base s.disk) (hs : Unmistaken r jobs base s)
    (hunused : Unused jobs s) : Staging.IsFaithful r ⟨s, jobs, []⟩ := by
  obtain ⟨rest, hrest⟩ := exists_rest jobs s
  have hd := hd.of_rest hs hrest
  exact fun st hrun t ht =>
    (Staging.Inv.run hd hs hrest hrun).replace_eq hd hs hrest hunused ht

/-- Staging is independent of its schedule and of what an earlier build left: on disks that differ
under the root alone, where nothing there stands in the way of an output, all schedules succeed or
all fail, and those that succeed stage the same modules with the same content. Where nothing was
left to wait, staging one package after the other is such a schedule. Every schedule can be brought
to an end from wherever it stands, and none goes on for ever. Every destination counts as present
from the start. -/
theorem ends_alike {v : Vendor} {root : Path} {reserved : List String} {plan : StagingPlan}
    (hplan : (ofVendor v root).map (withReserved · reserved) = .ok plan)
    (hroot : root.isAbsolute = true) (hsources : ∀ p ∈ v.packages, p.directory.Outside root)
    {s₁ s₂ : Session} (hproper : s₁.disk.Proper)
    (hagree : Disk.AgreesOutside root s₁.disk s₂.disk)
    (hunder₁ : ClearUnder root (plan.jobsOn s₁.disk) s₁.disk)
    (hunder₂ : ClearUnder root (plan.jobsOn s₁.disk) s₂.disk) (hsteady : plan.Steady s₁ s₂) :
    ((Unused (plan.jobsOn s₁.disk) s₁ → plan.Ends s₁ (plan.outcome s₁)) ∧
        (Unused (plan.jobsOn s₁.disk) s₂ → plan.Ends s₂ (plan.outcome s₂))) ∧
      (∀ s st, plan.Reaches s st → ∃ st',
        ReflTransGen (Staging.Step (plan.relocatorOn s.disk)) st st' ∧
          (st'.IsDone ∨ st'.Fails (plan.relocatorOn s.disk))) ∧
      (∀ s, WellFounded fun st' st => Staging.Step (plan.relocatorOn s) st st') ∧
      plan.jobsOn s₂.disk = plan.jobsOn s₁.disk ∧
      (∀ o₁ o₂, plan.Ends s₁ o₁ → plan.Ends s₂ o₂ →
        (o₁ = none ↔ o₂ = none) ∧
          ∀ d₁ d₂, o₁ = some d₁ → o₂ = some d₂ → ∀ j ∈ plan.jobsOn s₁.disk, ∃ content,
            d₁.read j.output = .ok content ∧ d₂.read j.output = .ok content) ∧
      ∀ j ∈ plan.jobsOn s₁.disk, ∀ p : Path, p.isAbsolute = true → p.clean = p →
        p.location = j.output.location → ∀ d, (plan.relocatorOn s₁.disk).presence d p = true := by
  have htasks := tasks_eq hplan
  have habsolute : ∀ task ∈ plan.tasks, task.destination.isAbsolute = true := by
    intro task htask
    rw [htasks] at htask
    obtain ⟨p, -, rfl⟩ := List.mem_map.mp htask
    exact isAbsolute_join hroot _
  have houtside : ∀ task ∈ plan.tasks, task.source.Outside root := by
    intro task htask
    rw [htasks] at htask
    obtain ⟨p, hp, rfl⟩ := List.mem_map.mp htask
    exact hsources p hp
  have hjobs : plan.jobsOn s₂.disk = plan.jobsOn s₁.disk :=
    (jobsOn_congr hproper hagree houtside).symm
  have hrelocator : plan.relocatorOn s₂.disk = plan.relocatorOn s₁.disk := by
    rw [relocatorOn, relocatorOn, hjobs]
  -- the disk of the first session is the measure for both of them
  obtain ⟨hd₁, hd₂⟩ := hsteady.undisturbed habsolute houtside hproper hagree
  have hs₁ := hsteady.unmistaken₁
  have hs₂ := hsteady.unmistaken₂
  refine ⟨⟨?_, ?_⟩, fun s st _ => Staging.exists_end _ st,
    fun s => Staging.wellFounded_step _, hjobs, fun o₁ o₂ h₁ h₂ => ?_,
    fun j hj p hp hclean hplace => presence_of_planned hj
      (isAbsolute_join (habsolute _ (of_mem_jobsOn hj).1) _) hp hclean hplace⟩
  · exact fun hunused => ends_outcome (isFaithful_of_unused hd₁ hs₁ hunused)
  · refine fun hunused => ends_outcome ?_
    rw [hrelocator, hjobs]
    exact isFaithful_of_unused hd₂ hs₂ hunused
  · have hlisting := listing_congr hproper hagree houtside
    cases hwork : plan.listing s₁.disk with
    | error fault =>
      obtain rfl := h₁.of_unlisted hwork
      obtain rfl := h₂.of_unlisted (hlisting ▸ hwork)
      exact ⟨Iff.rfl, by simp⟩
    | ok work =>
      have h₁ := h₁.of_listing hwork
      have h₂ := h₂.of_listing (hlisting ▸ hwork)
      simp only [Reaches, hrelocator, hjobs] at h₁ h₂
      obtain ⟨rfl, st₁, hrun₁, hfails₁⟩ | ⟨s₁', rfl, hrun₁⟩ := h₁ <;>
        obtain ⟨rfl, st₂, hrun₂, hfails₂⟩ | ⟨s₂', rfl, hrun₂⟩ := h₂
      · exact ⟨Iff.rfl, by simp⟩
      · refine absurd hfails₁ (not_fails_of_done hd₂ hs₂ hd₁ hs₁ (fun j hj => ?_) hagree.symm
          hunder₁ hrun₂ hrun₁)
        exact (hsteady.room j hj).imp And.left And.right
      · refine absurd hfails₂ (not_fails_of_done hd₁ hs₁ hd₂ hs₂ (fun j hj => ?_) hagree
          hunder₂ hrun₁ hrun₂)
        exact (hsteady.room j hj).imp And.right And.left
      · refine ⟨by simp, ?_⟩
        rintro _ _ ⟨⟩ ⟨⟩ j hj
        obtain ⟨t, ht, hentry₁⟩ := entry_of_done hd₁ hs₁ hrun₁ hj
        obtain ⟨u, hu, hentry₂⟩ := entry_of_done hd₂ hs₂ hrun₂ hj
        obtain rfl := Except.ok.inj (ht.symm.trans hu)
        exact ⟨_, Disk.read_eq_ok.mpr hentry₁, Disk.read_eq_ok.mpr hentry₂⟩

/-! ### Packages that import each other -/

/-- Two packages of one module each, which import each other. -/
def twinVendor : Vendor :=
  ⟨[⟨"a", ⟨"/s/a"⟩, ["**"], [(".", "x.js")]⟩, ⟨"b", ⟨"/s/b"⟩, ["**"], [(".", "x.js")]⟩]⟩

/-- The packages on a disk, with or without what an earlier staging has left that was
interrupted. -/
def twinDisk (leftovers : Bool) : Disk where
  entries := (if leftovers then [
      (["o"], .directory),
      (["o", "a"], .directory),
      (["o", "a", "x.js"], .file "old".toUTF8),
      (["o", "b"], .directory),
      (["o", "b", ".x.js.tmp.2000.0"], .file "import".toUTF8)] else []) ++ [
    (["s"], .directory),
    (["s", "a"], .directory),
    (["s", "a", "x.js"], .file "import \"b\"".toUTF8),
    (["s", "b"], .directory),
    (["s", "b", "x.js"], .file "import \"a\"".toUTF8)]
  sorted := by cases leftovers <;> decide
  rooted := by cases leftovers <;> decide

/-- A process that stages the packages. -/
def twinSession (leftovers : Bool) : Session :=
  .start (if leftovers then 2000 else 1000) (twinDisk leftovers)

/-- The staging of one of the packages. -/
def twinTask (name : String) : StagingTask :=
  ⟨name, ⟨"/s/" ++ name⟩, ⟨"/o/" ++ name⟩, ["**"]⟩

/-- The plan that stages the packages under `/o`. -/
def twinPlan : StagingPlan where
  tasks := [twinTask "a", twinTask "b"]
  relocator := .ofAliases
    ⟨⟨"/nonexistent"⟩, [(.exact "a", [⟨.exact "/o/a/x.js", .destination⟩]),
      (.exact "b", [⟨.exact "/o/b/x.js", .destination⟩])]⟩

/-- The module of one of the packages. -/
def twinJob (name : String) : StagingJob :=
  ⟨twinTask name, ⟨"x.js"⟩⟩

lemma jobsOn_twin : twinPlan.jobsOn (twinDisk false) = [twinJob "a", twinJob "b"] := by
  with_unfolding_all rfl

lemma agreesOutside_twin : Disk.AgreesOutside ⟨"/o"⟩ (twinSession false).disk
    (twinSession true).disk := by
  intro k hk
  have hroot : location ⟨"/o"⟩ = ["o"] := by with_unfolding_all rfl
  rw [hroot] at hk
  by_cases hnil : k = []
  · rw [hnil, Disk.get?_nil, Disk.get?_nil]
  · apply Option.ext
    intro e
    have hne (rest : List String) : k ≠ "o" :: rest := by
      rintro rfl
      exact hk (List.prefix_append ["o"] rest)
    rw [Disk.get?_eq_some_iff hnil, Disk.get?_eq_some_iff hnil]
    simp [twinSession, Session.start, twinDisk, hne]

/-- The script of one of the packages, for which the other one is at hand. -/
def twinScript (name other : String) : ScriptText :=
  ⟨⟨"/s/" ++ name ++ "/x.js"⟩, ⟨"/o/" ++ name ++ "/x.js"⟩, "import \"../" ++ other ++ "/x.js\""⟩

/-- Both modules are relocated, whichever of them are there. -/
lemma script_twin (leftovers : Bool) :
    (twinJob "a").script (twinPlan.relocatorOn (twinDisk leftovers)) (twinDisk leftovers) =
        .ok (twinScript "a" "b") ∧
      (twinJob "b").script (twinPlan.relocatorOn (twinDisk leftovers)) (twinDisk leftovers) =
        .ok (twinScript "b" "a") := by
  rw [← toOption_eq_some, ← toOption_eq_some]
  cases leftovers <;> decide +kernel

lemma clearUnder_twin (leftovers : Bool) :
    ClearUnder ⟨"/o"⟩ [twinJob "a", twinJob "b"] (twinDisk leftovers) where
  passage j hj k hk _ content hcontent := by
    have hclear : ∀ j ∈ [twinJob "a", twinJob "b"], ∀ k ∈ j.output.passage,
        (twinDisk leftovers).get? k = none ∨ (twinDisk leftovers).get? k = some .directory := by
      cases leftovers <;> decide +kernel
    rcases hclear j hj k hk with hnone | hdirectory
    · rw [hnone] at hcontent
      cases hcontent
    · rw [hdirectory] at hcontent
      cases hcontent
  place j hj _ := by
    have hfree : ∀ j ∈ [twinJob "a", twinJob "b"],
        (twinDisk leftovers).get? j.output.location ≠ some .directory := by
      cases leftovers <;> decide +kernel
    exact hfree j hj

lemma waiting_twin (leftovers : Bool) : ∀ i ∈ [twinJob "a", twinJob "b"], ∀ n < 2,
    ((Disk.waiting ((twinSession leftovers).stamp.later n) i.output).Fits ∧
      (twinDisk leftovers).get? (Disk.waiting ((twinSession leftovers).stamp.later n)
        i.output).location ≠ some .directory) ∧
      ∀ j ∈ [twinJob "a", twinJob "b"],
        (Disk.waiting ((twinSession leftovers).stamp.later n) i.output).location ∉
            j.output.trail ∧
          j.source.location ≠
            (Disk.waiting ((twinSession leftovers).stamp.later n) i.output).location := by
  cases leftovers <;> decide +kernel

/-- Nothing was left to wait where nothing has been staged. -/
lemma unused_twin : Unused [twinJob "a", twinJob "b"] (twinSession false) := by
  have hnone : ∀ i ∈ [twinJob "a", twinJob "b"], ∀ n < 2, (twinDisk false).get?
      (Disk.waiting ((twinSession false).stamp.later n) i.output).location = none := by
    decide +kernel
  rintro k ⟨i, hi, n, hn, hk⟩
  rw [hk]
  exact hnone i hi n hn

/-- What is asked for while a module is relocated is the other one, which is planned, and nothing
that was left to wait. -/
lemma asked_twin : ∀ j ∈ [twinJob "a", twinJob "b"],
    ∃ text, (twinDisk false).readText j.source = .ok text ∧
      ∀ p ∈ (twinPlan.relocatorOn (twinDisk false)).askedForScript
        ((twinPlan.relocatorOn (twinDisk false)).presence (twinDisk false)) j.source text,
      ∀ leftovers, (twinPlan.relocatorOn (twinDisk false)).presence (twinDisk leftovers) p =
          true ∧
        ∀ i ∈ [twinJob "a", twinJob "b"], ∀ n < 2, p.location ≠
          (Disk.waiting ((twinSession leftovers).stamp.later n) i.output).location := by
  have hread : (twinDisk false).readText (twinJob "a").source = .ok "import \"b\"" ∧
      (twinDisk false).readText (twinJob "b").source = .ok "import \"a\"" := by
    decide +kernel
  refine List.forall_mem_cons.mpr ⟨⟨_, hread.1, ?_⟩, List.forall_mem_singleton.mpr ⟨_, hread.2, ?_⟩⟩
  · decide +kernel
  · decide +kernel

lemma unmistaken_twin (leftovers : Bool) :
    Unmistaken (twinPlan.relocatorOn (twinDisk false)) [twinJob "a", twinJob "b"] (twinDisk false)
      (twinSession leftovers) where
  off := by
    rintro j hj k hmem ⟨i, hi, n, hn, hk⟩
    rw [hk] at hmem
    exact ((waiting_twin leftovers i hi n hn).2 j hj).1 hmem
  spared := by
    rintro k ⟨i, hi, n, hn, hk⟩ - j hj
    rw [hk]
    refine ⟨((waiting_twin leftovers i hi n hn).2 j hj).2, fun text htext p hp => ?_⟩
    obtain ⟨text', htext', hasked⟩ := asked_twin j hj
    obtain rfl := Except.ok.inj (htext.symm.trans htext')
    exact (hasked p hp leftovers).2 i hi n hn
  told := by
    have hold : Blake3.hash "old".toUTF8.data.toList ≠
        Blake3.hash (twinScript "a" "b").contents.toUTF8.data.toList := by
      decide +kernel
    have hfree : (twinDisk false).get? ["o", "a", "x.js"] = none ∧
        ∀ leftovers, (twinDisk leftovers).get? ["o", "b", "x.js"] = none := by
      decide
    have hthere : (twinDisk true).get? ["o", "a", "x.js"] = some (.file "old".toUTF8) := by
      decide
    have hplace : (twinJob "a").output.location = ["o", "a", "x.js"] ∧
        (twinJob "b").output.location = ["o", "b", "x.js"] := by
      decide +kernel
    simp only [List.mem_cons, List.not_mem_nil, or_false, forall_eq_or_imp, forall_eq, hplace]
    refine ⟨fun t ht old hentry hsame => ?_, fun t ht old hentry => ?_⟩
    · obtain rfl := Except.ok.inj ((script_twin false).1.symm.trans ht)
      cases leftovers with
      | false => cases hfree.1.symm.trans hentry
      | true =>
        obtain rfl := Entry.file.inj (Option.some.inj (hthere.symm.trans hentry))
        exact absurd hsame hold
    · cases (hfree.2 leftovers).symm.trans hentry

lemma steady_twin : twinPlan.Steady (twinSession false) (twinSession true) := by
  have hroomy (leftovers : Bool) : ∀ j ∈ [twinJob "a", twinJob "b"],
      Roomy (twinPlan.relocatorOn (twinDisk false)) [twinJob "a", twinJob "b"] (twinDisk false)
        (twinSession leftovers) j :=
    fun j hj => .inl fun n hn => (waiting_twin leftovers j hj n hn).1
  have hplaces : (twinJob "a").output.location ≠ (twinJob "b").output.location := by
    decide +kernel
  constructor
  all_goals
    rw [show (twinSession false).disk = twinDisk false from rfl, jobsOn_twin]
  case asked =>
    intro j hj text htext p hp
    obtain ⟨text', htext', hpresent⟩ := asked_twin j hj
    obtain rfl := Except.ok.inj (htext.symm.trans htext')
    have hplanned := (hpresent p hp false).1
    exact ⟨(hpresent p hp true).1.trans hplanned.symm, .inl hplanned⟩
  case once =>
    have hsame (j : StagingJob) (t u : ScriptText)
        (ht : j.script (twinPlan.relocatorOn (twinDisk false)) (twinDisk false) = .ok t)
        (hu : j.script (twinPlan.relocatorOn (twinDisk false)) (twinDisk false) = .ok u) :
        t.contents = u.contents := by
      rw [Except.ok.inj (ht.symm.trans hu)]
    simp only [List.mem_cons, List.not_mem_nil, or_false, forall_eq_or_imp, forall_eq]
    exact ⟨⟨fun _ => hsame _, fun heq => absurd heq hplaces⟩,
      fun heq => absurd heq.symm hplaces, fun _ => hsame _⟩
  case apart =>
    decide +kernel
  case room =>
    exact fun j hj => .inl ⟨hroomy false j hj, hroomy true j hj⟩
  case unmistaken₁ => exact unmistaken_twin false
  case unmistaken₂ => exact unmistaken_twin true

/-- The second package can go first. -/
lemma reaches_twin : ∃ d, twinPlan.Reaches (twinSession true)
    ⟨⟨d, (twinSession true).stamp.next⟩, [twinJob "a"], []⟩ := by
  have hjobs : twinPlan.jobsOn (twinDisk true) = [twinJob "a", twinJob "b"] := by
    with_unfolding_all rfl
  obtain ⟨d, hemit⟩ : ∃ d, (Disk.replaceIfChanged (twinSession true).stamp
      (twinScript "b" "a").destination (twinScript "b" "a").contents.toUTF8).on
        (twinSession true).disk = (.ok true, d) :=
    ⟨_, Prod.ext (by decide +kernel) rfl⟩
  have hdisk : (twinSession true).disk = twinDisk true := rfl
  rw [← hdisk] at hjobs
  have hscript := (script_twin true).2
  rw [← hdisk] at hscript
  generalize twinSession true = s at *
  refine ⟨d, ?_⟩
  rw [Reaches, hjobs]
  exact .tail (.single (.relocate [twinJob "a"] hscript)) (.emit [] hemit)

/-- The packages are staged alike, the first one first where there is nothing, and the second one
first over what an earlier staging has left, the file in which its script was waiting included. -/
theorem ends_alike_twin :
    ∃ d₁ st s₂, twinPlan.outcome (twinSession false) = some d₁ ∧
      twinPlan.Reaches (twinSession true) st ∧ st.waiting = [twinJob "a"] ∧ st.ready = [] ∧
      ReflTransGen (Staging.Step (twinPlan.relocatorOn (twinDisk true))) st ⟨s₂, [], []⟩ ∧
      ∀ j ∈ [twinJob "a", twinJob "b"], ∃ content,
        d₁.read j.output = .ok content ∧ s₂.disk.read j.output = .ok content := by
  have hplan : (ofVendor twinVendor ⟨"/o"⟩).map (withReserved · Relocator.defaultReserved) =
      .ok twinPlan := by
    with_unfolding_all rfl
  have houtside : ∀ p ∈ twinVendor.packages, p.directory.Outside ⟨"/o"⟩ := by
    refine List.forall_mem_cons.mpr ⟨?_, List.forall_mem_singleton.mpr ?_⟩ <;>
      exact ⟨by decide +kernel, by decide +kernel⟩
  have hunder (leftovers : Bool) : ClearUnder ⟨"/o"⟩ (twinPlan.jobsOn (twinSession false).disk)
      (twinSession leftovers).disk :=
    jobsOn_twin.symm ▸ clearUnder_twin leftovers
  have hproper : (twinSession false).disk.Proper := by
    decide +kernel
  have hall := ends_alike hplan rfl houtside hproper agreesOutside_twin (hunder false)
    (hunder true) steady_twin
  obtain ⟨⟨hfirst, -⟩, hend, -, -, halike, -⟩ := hall
  have hfirst := hfirst (jobsOn_twin.symm ▸ unused_twin)
  obtain ⟨d₁, h₁⟩ : ∃ d₁, twinPlan.outcome (twinSession false) = some d₁ :=
    Option.isSome_iff_exists.mp (by decide +kernel)
  rw [h₁] at hfirst
  obtain ⟨d, hreaches⟩ := reaches_twin
  obtain ⟨work, hwork⟩ : ∃ work, twinPlan.listing (twinDisk true) = .ok work :=
    ⟨_, by with_unfolding_all rfl⟩
  -- the other session cannot fail, since the first one did not
  obtain ⟨⟨s₂, waiting, ready⟩, hrest, ⟨rfl, rfl⟩ | hfails⟩ := hend _ _ hreaches
  · obtain ⟨-, hread⟩ := halike _ _ hfirst (.done hwork (hreaches.trans hrest))
    refine ⟨d₁, _, s₂, h₁, hreaches, rfl, rfl, hrest, fun j hj => ?_⟩
    exact hread d₁ s₂.disk rfl rfl j (jobsOn_twin.symm ▸ hj)
  · obtain ⟨hnone, -⟩ := halike _ _ hfirst (.failed hwork (hreaches.trans hrest) hfails)
    cases hnone.mpr rfl

end StagingPlan

end AddonBuild
