import AddonBuild.Proofs.Build.Tasks
import AddonBuild.Proofs.Path.Under
import AddonBuild.Proofs.Project.Placing

/-!
# Manifests

The directory of a pack is not that of another and does not lie in it, and nothing that fills a pack
comes to the place of a manifest. So the manifests are there once both tasks of a build are done, in
whichever order, and pruning leaves them there. Writing them again changes nothing as long as the
directories are there that their paths go through.
-/

namespace AddonBuild

open AddonBuild.Path WorkM

/-! ### Cleaned steps of places -/

namespace Path

variable {p q : Path} {name : String}

lemma exists_steps_of_fileName? (h : p.fileName? = some name) :
    ∃ before, p.steps = before ++ [.name name] := by
  obtain ⟨init, hway⟩ := List.getLast?_eq_some_iff.mp (fileName?_eq_some_iff.mp h)
  refine ⟨cleanComponents (p.lead ++ init), ?_⟩
  rw [steps_eq, components_eq, hway, ← List.append_assoc, cleanComponents_append_name]

lemma location_ne_of_steps_ne (hp : p.isAbsolute = true) (hq : q.isAbsolute = true)
    (h : p.steps ≠ q.steps) : p.location ≠ q.location := by
  intro heq
  refine h ?_
  rw [steps, (clean_eq_clean_iff hp hq).mpr heq, ← steps]

lemma Apart.symm (h : p.Apart q) : q.Apart p :=
  ⟨h.not_behind, h.not_lead, h.not_behind_clean, h.not_lead_clean⟩

end Path

/-! ### Writing again -/

namespace Output

variable {α : Type} {l : List α} {path : α → Path} {content : α → ByteArray} {s s' : Session}

lemma on_emit_of_entry {p : Path} {bytes : ByteArray} (h : s.disk.entry p = .ok (.file bytes)) :
    (emit p bytes).on s = (.ok ⟨p, false⟩, s) :=
  on_emit_eq_ok.mpr ⟨false, s.disk, Disk.on_writeIfChanged_eq_ok.mpr (.inl ⟨h, rfl, rfl⟩), rfl, rfl⟩

/-- A file is not written just if it is there already. -/
lemma on_emit_unchanged {p : Path} {bytes : ByteArray} :
    (∃ o, (emit p bytes).on s = (.ok o, s') ∧ o.fresh = false) ↔
      s.disk.entry p = .ok (.file bytes) ∧ s' = s := by
  simp only [on_emit_eq_ok]
  constructor
  · rintro ⟨_, ⟨fresh, d', hwrite, rfl, rfl⟩, hfresh⟩
    rcases Disk.on_writeIfChanged_eq_ok.mp hwrite with ⟨hentry, rfl, rfl⟩ | ⟨-, rfl, -⟩
    · exact ⟨hentry, rfl⟩
    · cases hfresh
  · rintro ⟨hentry, rfl⟩
    exact ⟨⟨p, false⟩, on_emit_eq_ok.mp (on_emit_of_entry hentry), rfl⟩

/-- Nothing is written just if everything is there already. -/
lemma on_mapM_emit_unchanged :
    (∃ outputs, (l.mapM fun a => emit (path a) (content a)).on s = (.ok outputs, s') ∧
        outputs.countP (·.fresh) = 0) ↔
      (∀ a ∈ l, s.disk.entry (path a) = .ok (.file (content a))) ∧ s' = s := by
  simp only [List.countP_eq_zero, Bool.not_eq_true]
  induction l with
  | nil =>
    constructor
    · rintro ⟨outputs, h, -⟩
      rw [List.mapM_nil, on_pure] at h
      exact ⟨List.forall_mem_nil _, (Prod.mk.inj h).2.symm⟩
    · rintro ⟨-, rfl⟩
      exact ⟨[], rfl, List.forall_mem_nil _⟩
  | cons a l ih =>
    rw [List.forall_mem_cons, and_assoc, ← ih]
    constructor
    · rintro ⟨outputs, h, hfresh⟩
      obtain ⟨o, os, s₁, hfirst, hrest, rfl⟩ := on_mapM_cons_eq_ok.mp h
      obtain ⟨ho, hos⟩ := List.forall_mem_cons.mp hfresh
      obtain ⟨hentry, rfl⟩ := on_emit_unchanged.mp ⟨o, hfirst, ho⟩
      exact ⟨hentry, os, hrest, hos⟩
    · rintro ⟨hentry, os, hrest, hos⟩
      obtain ⟨o, hfirst, ho⟩ := on_emit_unchanged.mpr ⟨hentry, rfl⟩
      exact ⟨o :: os, on_mapM_cons_eq_ok.mpr ⟨o, os, s, hfirst, hrest, rfl⟩,
        List.forall_mem_cons.mpr ⟨ho, hos⟩⟩

end Output

namespace Build

variable {c : Config} {p : Project} {packs : List PlacedPack} {s s' : Session} {d d' : Disk}
  {manifests : Nat} {contents : Contents}

/-! ### Places of manifests -/

lemma steps_manifestPath (root : Path) (pack : PlacedPack) :
    (manifestPath root pack).steps = (pack.stagePath root).steps ++ [.name "manifest.json"] :=
  steps_child (by decide) _

lemma steps_manifestPath_ne {root : Path} {a b : PlacedPack}
    (h : (a.stagePath root).Apart (b.stagePath root)) :
    (manifestPath root a).steps ≠ (manifestPath root b).steps := by
  rw [steps_manifestPath, steps_manifestPath]
  intro heq
  exact h.not_lead_clean (List.append_cancel_right heq ▸ List.prefix_refl _)

/-- A path that is not the path of a manifest, also when both are cleaned. -/
def IsNoManifest (c : Config) (p : Project) (q : Path) : Prop :=
  ∀ pack ∈ p.packs, q.steps ≠ (manifestPath c.buildPath pack).steps

section Apart

variable (hapart : packs.Pairwise fun a b =>
  (a.stagePath c.buildPath).Apart (b.stagePath c.buildPath))
include hapart

/-- Nothing that fills a pack comes to the place of a manifest. -/
lemma IsContent.steps_ne {q : Path} (hq : IsContent c packs q) {pack : PlacedPack}
    (hpack : pack ∈ packs) : q.steps ≠ (manifestPath c.buildPath pack).steps := by
  rw [steps_manifestPath]
  intro heq
  rcases hq.place with ⟨name, hne, hname⟩ | ⟨other, hother, rel, hne, hrel, hstep, rfl⟩
  · obtain ⟨before, hsteps⟩ := exists_steps_of_fileName? hname
    rw [hsteps] at heq
    exact hne (Component.name.inj (List.singleton_inj.mp (List.append_inj' heq rfl).2))
  -- a copy of that name lies in the directory of the pack that it is the manifest of
  · obtain ⟨init, last, rfl⟩ := (List.eq_nil_or_concat rel).resolve_left hne
    rw [List.concat_eq_append] at hstep heq hrel
    rw [steps_join_path _ hstep, List.map_append, ← List.append_assoc] at heq
    obtain ⟨hstage, hlast⟩ := List.append_inj' heq rfl
    obtain rfl : last = "manifest.json" := Component.name.inj (List.singleton_inj.mp hlast)
    by_cases hsame : other = pack
    · rw [hsame, List.append_right_eq_self, List.map_eq_nil_iff] at hstage
      rw [hstage] at hrel
      exact hrel rfl
    · have hsymm : Std.Symm fun a b : PlacedPack =>
          (a.stagePath c.buildPath).Apart (b.stagePath c.buildPath) := ⟨fun _ _ h => h.symm⟩
      exact (hapart.forall hother hpack hsame).not_lead_clean ⟨_, hstage⟩

end Apart

/-! ### Manifests after the tasks -/

section Tasks

variable (hd : s.disk.Proper) (hroot : c.root.isAbsolute = true)
  (hapart : p.packs.Pairwise fun a b =>
    (a.stagePath c.buildPath).Apart (b.stagePath c.buildPath))
include hd hroot hapart

lemma entry_manifestPath_of_write (h : (writeManifests c p).on s = (.ok manifests, s'))
    {pack : PlacedPack} (hpack : pack ∈ p.packs) :
    s'.disk.entry (manifestPath c.buildPath pack) =
      .ok (.file (manifestText pack.toPack).toUTF8) := by
  obtain ⟨outputs, hemit, -⟩ := on_writeManifests_eq_ok.mp h
  refine (Output.of_mapM_emit hd hemit).2 ?_ pack hpack
  exact hapart.imp fun hab => location_ne_of_steps_ne (isAbsolute_manifestPath hroot _)
    (isAbsolute_manifestPath hroot _) (steps_manifestPath_ne hab)

/-- Whatever comes of filling the packs, manifests are left as they are. -/
lemma entry_manifestPath_of_fill {content : ByteArray} {pack : PlacedPack} (hpack : pack ∈ p.packs)
    (h : s.disk.entry (manifestPath c.buildPath pack) = .ok (.file content)) :
    ((fillPacks c p).on s).2.disk.entry (manifestPath c.buildPath pack) = .ok (.file content) :=
  ((places_fillPacks p).of_proper hd).1.entry_eq h fun _ hq =>
    location_ne_of_steps_ne (hq.absolute hroot) (isAbsolute_manifestPath hroot pack)
      (hq.steps_ne hapart hpack)

lemma Filled.entry_manifestPath (h : Filled c p manifests contents s s') {pack : PlacedPack}
    (hpack : pack ∈ p.packs) :
    s'.disk.entry (manifestPath c.buildPath pack) =
      .ok (.file (manifestText pack.toPack).toUTF8) := by
  cases h with
  | manifestsFirst hmanifests hcontents =>
    have hd₀ := (leaves_writeManifests hd hroot hmanifests).proper
    have hentry := entry_manifestPath_of_write hd hroot hapart hmanifests hpack
    simpa [hcontents] using entry_manifestPath_of_fill hd₀ hroot hapart hpack hentry
  | contentsFirst hcontents hmanifests =>
    have hd₀ := (leaves_fillPacks hd hroot hcontents).proper
    exact entry_manifestPath_of_write hd₀ hroot hapart hmanifests hpack

/-! ### Manifests after a build -/

variable {s₁ : Session} {n : Nat} (hfilled : Filled c p manifests contents s s₁)
  (hprune : (prune c.buildPath (Build.kept c p contents)).on s₁.disk = (.ok n, d'))
include hfilled hprune

lemma entry_clean_manifestPath_of_prune {pack : PlacedPack} (hpack : pack ∈ p.packs) :
    d'.entry (manifestPath c.buildPath pack).clean =
      .ok (.file (manifestText pack.toPack).toUTF8) := by
  obtain ⟨-, hd₁, hkept⟩ := hfilled.leaves hd hroot
  have hmem : manifestPath c.buildPath pack ∈ Build.kept c p contents :=
    List.mem_append_left _ (List.mem_map_of_mem hpack)
  have habsolute := isAbsolute_manifestPath hroot pack
  obtain ⟨hfits, -, -, hfile⟩ :=
    Disk.entry_eq_file_iff.mp (hfilled.entry_manifestPath hd hroot hapart hpack)
  refine (Disk.entry_eq_ok_of_clean (clean_isAbsolute habsolute) (clean_clean habsolute)).mpr
    ⟨hfits.clean habsolute, ?_⟩
  rw [location_clean,
    get?_location_of_prune (isAbsolute_buildPath hroot) hkept hd₁ hprune hmem, hfile]

/-- The manifests are found where they were written just if their directories are still there. -/
lemma entry_manifestPath_iff {pack : PlacedPack} (hpack : pack ∈ p.packs) :
    d'.entry (manifestPath c.buildPath pack) = .ok (.file (manifestText pack.toPack).toUTF8) ↔
      Carried c.buildPath (Build.kept c p contents) (manifestPath c.buildPath pack) := by
  obtain ⟨-, hd₁, hkept⟩ := hfilled.leaves hd hroot
  have hmem : manifestPath c.buildPath pack ∈ Build.kept c p contents :=
    List.mem_append_left _ (List.mem_map_of_mem hpack)
  constructor
  · intro hentry
    exact ((pruned_of_prune (isAbsolute_buildPath hroot) (clean_absolutize hroot _) hkept hd₁
      hprune).named _ hmem).mp (Disk.isFile_iff.mpr ⟨_, hentry⟩)
  · intro hcarried
    rw [entry_of_carried (isAbsolute_buildPath hroot) hkept hd₁ hprune hmem hcarried]
    exact hfilled.entry_manifestPath hd hroot hapart hpack

end Tasks

/-- Packs and tasks write to places of their own. So in whichever order the tasks of a build run,
each manifest is there in the end with its text, and writing the manifests again writes nothing if,
and only if, each directory of the build tree on their paths has something below it. -/
theorem manifests_of_load {packageJson manifestSource : Path} {d : Disk} {p : Project}
    (hload : Project.load d packageJson manifestSource = .ok p) :
    (∀ root, p.packs.Pairwise fun a b => (a.stagePath root).Apart (b.stagePath root)) ∧
    (∀ (c : Config) (s : Session), s.disk.Proper →
      s.disk.Receives (IsNoManifest c p) ((fillPacks c p).on s).2.disk ∧
        ∀ contents s', (fillPacks c p).on s = (.ok contents, s') →
          ∀ q ∈ contents.outputs, IsNoManifest c p q) ∧
    ∀ (c : Config) (s s₁ : Session) (d' : Disk) (manifests : Nat) (contents : Contents) (n : Nat),
      c.root.isAbsolute = true → s.disk.Proper → Filled c p manifests contents s s₁ →
      (prune c.buildPath (Build.kept c p contents)).on s₁.disk = (.ok n, d') →
        (∀ pack ∈ p.packs, d'.entry (manifestPath c.buildPath pack).clean =
          .ok (.file (manifestText pack.toPack).toUTF8)) ∧
        ∀ stamp, ((writeManifests c p).on ⟨d', stamp⟩ = (.ok 0, ⟨d', stamp⟩) ↔
          ∀ pack ∈ p.packs, Carried c.buildPath (Build.kept c p contents)
            (manifestPath c.buildPath pack)) := by
  obtain ⟨packs, hpacks⟩ := Project.exists_packs_eq_place hload
  have hapart (root : Path) :
      p.packs.Pairwise fun a b => (a.stagePath root).Apart (b.stagePath root) :=
    hpacks ▸ Pack.pairwise_place p.name packs root
  refine ⟨hapart, fun c s hd => ?_, fun c s s₁ d' manifests contents n hroot hd hfilled hprune =>
    ⟨fun pack hpack => ?_, fun stamp => ?_⟩⟩
  · obtain ⟨hreceives, hnamed⟩ := (places_fillPacks (c := c) p).of_proper hd
    exact ⟨hreceives.mono fun q hq pack hpack => hq.steps_ne (hapart _) hpack,
      fun contents s' hfill q hq pack hpack =>
        (hnamed _ _ hfill q hq).1.steps_ne (hapart _) hpack⟩
  · exact entry_clean_manifestPath_of_prune hd hroot (hapart _) hfilled hprune hpack
  -- nothing is written just if every manifest is there already with its text
  · have hzero : (writeManifests c p).on ⟨d', stamp⟩ = (.ok 0, ⟨d', stamp⟩) ↔
        ∃ outputs, (emitManifests c p).on ⟨d', stamp⟩ = (.ok outputs, ⟨d', stamp⟩) ∧
          outputs.countP (·.fresh) = 0 :=
      on_writeManifests_eq_ok.trans (exists_congr fun _ => and_congr_right fun _ => eq_comm)
    rw [hzero, emitManifests, Output.on_mapM_emit_unchanged, and_iff_left rfl]
    exact forall₂_congr fun pack hpack =>
      entry_manifestPath_iff hd hroot (hapart _) hfilled hprune hpack

/-- Where the name of the project has no slash, the directories of the manifests stay. -/
lemma carried_manifestPath {packageJson manifestSource : Path}
    (hload : Project.load d packageJson manifestSource = .ok p) (hname : '/' ∉ p.name.toList)
    {pack : PlacedPack} (hpack : pack ∈ p.packs) :
    Carried c.buildPath (Build.kept c p contents) (manifestPath c.buildPath pack) := by
  obtain ⟨packs, hpacks⟩ := Project.exists_packs_eq_place hload
  have hstage := Pack.straight_stagePath (straight_clean _ : c.buildPath.Straight) hname
    (hpacks ▸ hpack)
  exact carried_of_straight (hstage.child (by decide))
    (List.mem_append_left _ (List.mem_map_of_mem hpack))

/-- Once the two packs have been built, their manifests need not be written again. -/
theorem manifests_of_load_leftoverDisk :
    ∃ report s', (run (.ofRoot ⟨"/"⟩)).on (.start 7 leftoverDisk) = (.ok report, s') ∧
      (writeManifests (.ofRoot ⟨"/"⟩) report.project).on s' = (.ok 0, s') := by
  obtain ⟨report, s', hrun, hname⟩ := exists_run_leftoverDisk
  obtain ⟨hload, s₀, s₁, hmanifests, hcontents, d', hprune, rfl⟩ := on_run_eq_ok.mp hrun
  obtain ⟨-, -, hbuilt⟩ := manifests_of_load hload
  obtain ⟨-, hagain⟩ := hbuilt _ _ _ _ _ _ _ (by decide) proper_leftoverDisk
    (.manifestsFirst hmanifests hcontents) hprune
  refine ⟨report, ⟨d', s₁.stamp⟩, hrun, (hagain s₁.stamp).mpr fun pack hpack => ?_⟩
  exact carried_manifestPath hload (by rw [hname]; decide) hpack

end Build

end AddonBuild
