import AddonBuild.Proofs.Build.Manifests
import AddonBuild.Proofs.Vendor.Visiting

/-!
# Builds that stay in the build tree

Where a pack is filled depends on the name of the project, the entries of its scripts and the names
of the packages that these need. As long as none of them leads out of the directory that it is read
from, whatever is written for a pack, and its manifest, lies under the build path.
-/

namespace AddonBuild

open AddonBuild.Path WorkM

namespace Path

variable {a b p root : Path} {name : String}

/-! ### Joining twice -/

/-- What joining puts between a path and a relative one. -/
def separator (p : Path) : String :=
  if p.text.isEmpty || p.text.toList.getLast? = some '/' then "" else "/"

lemma join_of_relative (p : Path) (hb : b.isAbsolute = false) :
    p.join b = ⟨p.text ++ p.separator ++ b.text⟩ := by
  rw [join, if_neg (by simp [hb]), separator]
  split_ifs
  · rw [String.append_empty]
  · rfl

/-- What comes behind a joined path depends on its second part alone. -/
lemma separator_join (p : Path) (ha : a.isAbsolute = false) :
    (p.join a).separator = a.separator := by
  obtain ⟨text⟩ := a
  rw [join_of_relative p ha]
  by_cases hempty : text = ""
  · subst hempty
    have hend : (p.text ++ p.separator).isEmpty = true ∨
        (p.text ++ p.separator).toList.getLast? = some '/' := by
      rw [separator]
      split_ifs with hp
      · simpa using hp
      · simp
    have hnone : separator ⟨p.text ++ p.separator⟩ = "" := if_pos (by simpa using hend)
    rw [String.append_empty, hnone]
    rfl
  · simp [separator, hempty]

lemma relative_of_join (h : (a.join b).isAbsolute = false) :
    a.isAbsolute = false ∧ b.isAbsolute = false := by
  constructor
  · cases ha : a.isAbsolute with
    | false => rfl
    | true => rw [isAbsolute_join ha b] at h; cases h
  · cases hb : b.isAbsolute with
    | false => rfl
    | true => rw [join, if_pos hb, hb] at h; cases h

/-- Joining a relative path made of two is joining one after the other. -/
lemma join_join (root : Path) (h : (a.join b).isAbsolute = false) :
    (root.join a).join b = root.join (a.join b) := by
  obtain ⟨ha, hb⟩ := relative_of_join h
  rw [join_of_relative _ hb, separator_join root ha, join_of_relative _ ha,
    join_of_relative _ h, join_of_relative _ hb]
  simp [String.append_assoc]

/-! ### Into a directory -/

lemma Within.join_listed (h : root.Within p) {relative : Path} (hrelative : relative.Listed) :
    (p.join relative).IsUnder root := by
  obtain ⟨names, hnames⟩ := h
  obtain ⟨rel, rfl, hne, hstep⟩ := hrelative
  refine ⟨names ++ rel, by simp [hne], ?_⟩
  rw [steps_join_path p hstep, hnames, List.map_append, List.append_assoc]

lemma Within.child (h : root.Within p) (hname : (Component.name name).IsStep) :
    (p.child name).IsUnder root := by
  obtain ⟨names, hnames⟩ := h
  refine ⟨names ++ [name], by simp, ?_⟩
  rw [steps_child hname, hnames, List.map_append, List.append_assoc]
  rfl

end Path

namespace Build

variable {c : Config} {p : Project} {vendor : Vendor} {pack : PlacedPack} {s : Session} {d : Disk}

/-- Whether the directories of a project lead to places in the directory in which they are made,
whichever that is: those of its packs, of what lies beside its scripts, and of packages there. -/
structure StaysInside (p : Project) (vendor : Vendor) : Prop where
  packs : ∀ pack ∈ p.packs, (pack.stagePath ⟨""⟩).Descends
  scripts : ∀ pack ∈ p.packs, ∀ m ∈ pack.modules, ∀ entry, m.entry? = some entry →
    (vendorRoot (pack.stagePath ⟨""⟩) entry).Descends
  packages : ∀ pack ∈ p.packs, ∀ m ∈ pack.modules, ∀ entry, m.entry? = some entry →
    ∀ package ∈ vendor.packages,
      ((vendorRoot (pack.stagePath ⟨""⟩) entry).child package.name).Descends

lemma join_empty (q : Path) : join ⟨""⟩ q = q := by
  rw [join]
  split_ifs
  · rfl
  · simp
  · simp_all

lemma within_stagePath (h : (pack.stagePath ⟨""⟩).Descends) (root : Path) :
    root.Within (pack.stagePath root) := by
  rw [PlacedPack.stagePath] at h ⊢
  cases hdirectory : pack.subDirectory with
  | none => exact ⟨[], (List.append_nil _).symm⟩
  | some directory =>
    rw [hdirectory] at h
    dsimp only at h ⊢
    rw [Path.child, join_empty] at h
    exact h.within root

/-- What is read from the directory of a pack is read from the directory in which that is made. -/
lemma stagePath_join (root : Path) {q : Path}
    (h : ((pack.stagePath ⟨""⟩).join q).isAbsolute = false) :
    (pack.stagePath root).join q = root.join ((pack.stagePath ⟨""⟩).join q) := by
  rw [PlacedPack.stagePath] at h
  rw [PlacedPack.stagePath, PlacedPack.stagePath]
  cases hdirectory : pack.subDirectory with
  | none => rw [join_empty]
  | some directory =>
    rw [hdirectory] at h
    dsimp only [Path.child] at h ⊢
    rw [join_empty] at h ⊢
    exact join_join root h

/-- Whatever a job puts down lies under the build path. -/
lemma isUnder_of_puts (h : StaysInside p vendor) (hpack : pack ∈ p.packs) {job : Job}
    (hjob : job ∈ Job.ofPack pack) {q : Path} (hq : job.Puts c vendor q) :
    q.IsUnder c.buildPath := by
  have hstage := within_stagePath (h.packs pack hpack) c.buildPath
  obtain ⟨m, hm, entry, hentry, rfl⟩ | ⟨m, -, -, rfl⟩ | rfl := mem_ofPack.mp hjob
  · have hscripts := h.scripts pack hpack m hm entry hentry
    have hroot : vendorRoot (pack.stagePath c.buildPath) entry =
        c.buildPath.join (vendorRoot (pack.stagePath ⟨""⟩) entry) :=
      stagePath_join _ hscripts.relative
    cases hq with
    | @package _ _ _ p _ hp hlisted hscript =>
      have hpackage := h.packages pack hpack m hm entry hentry p hp
      rw [hroot, Path.child, join_join _ hpackage.relative]
      exact (hpackage.within c.buildPath).join_listed hlisted
    | description =>
      rw [hroot]
      exact (hscripts.within c.buildPath).child (by decide)
    | script hlisted => exact hstage.join_listed hlisted
    | json hlisted => exact (hstage.join_listed hlisted).withExtension (by decide) (by decide)
  · cases hq with
    | copy hlisted => exact hstage.join_listed hlisted
  · cases hq with
    | license hname => exact hstage.child (isStep_license hname)

/-- As long as the directories of a project stay inside, filling its packs writes nothing outside of
the build path, whatever comes of it, and what it answers for and the manifests lie there. -/
theorem isUnder_buildPath (hd : s.disk.Proper)
    (hvendor : vendorFor c (p.packs.flatMap Job.ofPack) s.disk = .ok vendor)
    (h : StaysInside p vendor) :
    (∀ pack ∈ p.packs, (manifestPath c.buildPath pack).IsUnder c.buildPath) ∧
    s.disk.Receives (·.IsUnder c.buildPath) ((fillPacks c p).on s).2.disk ∧
    ∀ contents s', (fillPacks c p).on s = (.ok contents, s') →
      ∀ q ∈ contents.outputs, q.IsUnder c.buildPath := by
  have hputs : ∀ job ∈ p.packs.flatMap Job.ofPack, ∀ q, job.Puts c vendor q →
      q.IsUnder c.buildPath := by
    intro job hjob q hq
    obtain ⟨pack, hpack, hjob⟩ := List.mem_flatMap.mp hjob
    exact isUnder_of_puts h hpack hjob hq
  have hfill : (fillPacks c p).on s =
      (do return (← (p.packs.flatMap Job.ofPack).mapM (Job.run c vendor)).foldl .merge .zero :
        SessionM Fault Contents).on s := by
    rw [fillPacks, on_bind_of_ok (by rw [SessionM.on_consult, hvendor])]
  obtain ⟨hreceives, hnamed⟩ := (places_mapM_run vendor hputs).of_proper hd
  rw [← hfill] at hreceives hnamed
  refine ⟨?_, hreceives, ?_⟩
  · intro pack hpack
    have hstage := within_stagePath (h.packs pack hpack) c.buildPath
    exact hstage.child (by decide)
  · exact fun contents s' hrun q hq => (hnamed contents s' hrun q hq).1

/-! ### A project with scripts -/

/-- An identifier. -/
def scriptUuid : Uuid := ⟨List.replicate 32 (Fin.last 15), by decide⟩

/-- A module of scripts. -/
def scriptModule : Module :=
  ⟨"", scriptUuid, ⟨1, 0, 0, "", ""⟩, ["scripts/*"], .script "javascript" "scripts/a.js"⟩

/-- A pack with one module of scripts and nothing else to tell of it. -/
def scriptPack : PlacedPack where
  name := "x"
  uuid := scriptUuid
  description := ""
  version := ⟨1, 0, 0, "", ""⟩
  icon := none
  minEngineVersion := none
  baseGameVersion := none
  lockTemplateOptions := none
  modules := [scriptModule]
  dependencies := []
  capabilities := []
  metadata := ⟨none, none, [], none⟩
  kind := .behavior
  subDirectory := none
  installDirectory := "x"

/-- The project of this pack. -/
def scriptProject : Project := ⟨"x", ⟨1, 0, 0, "", ""⟩, [scriptPack]⟩

/-- A script that imports another one, and a value. -/
def scriptDisk : Disk where
  entries := [
    (["package.json"], .file packageText.toUTF8),
    (["src"], .directory),
    (["src", "scripts"], .directory),
    (["src", "scripts", "a.js"], .file "import './b';".toUTF8),
    (["src", "scripts", "b.js"], .file "".toUTF8),
    (["src", "scripts", "c.json"], .file "1".toUTF8)]
  sorted := by decide
  rooted := by decide

lemma proper_scriptDisk : scriptDisk.Proper := by
  decide

/-- Without dependencies no packages are needed. -/
lemma vendorFor_of_dependencyNames (h : (Document.read d
      ((⟨"/"⟩ : Path).absolutize (Config.ofRoot ⟨"/"⟩).packageJson)).toOption.map
        Document.dependencyNames = some []) :
    vendorFor (.ofRoot ⟨"/"⟩) (scriptProject.packs.flatMap Job.ofPack) d = .ok ⟨[]⟩ := by
  rw [vendorFor, if_pos (by decide), Vendor.load_eq_ok]
  generalize Document.read d
    ((⟨"/"⟩ : Path).absolutize (Config.ofRoot ⟨"/"⟩).packageJson) = outcome at h ⊢
  cases outcome with
  | error fault => cases h
  | ok description =>
    refine ⟨description, rfl, ?_⟩
    rw [Vendor.requests, Option.some.inj h]
    exact .nil

lemma vendorFor_scriptDisk :
    vendorFor (.ofRoot ⟨"/"⟩) (scriptProject.packs.flatMap Job.ofPack) scriptDisk = .ok ⟨[]⟩ :=
  vendorFor_of_dependencyNames (by decide +kernel)

lemma staysInside_scriptProject : StaysInside scriptProject ⟨[]⟩ where
  packs pack hpack := by
    obtain rfl := List.mem_singleton.mp hpack
    exact ⟨rfl, by decide⟩
  scripts pack hpack m hm entry hentry := by
    obtain rfl := List.mem_singleton.mp hpack
    obtain rfl := List.mem_singleton.mp hm
    obtain rfl := Option.some.inj hentry
    exact ⟨by decide, by decide⟩
  packages _ _ _ _ _ _ package hpackage := by cases hpackage

/-- The project once it has been built. -/
def builtDisk : Disk where
  entries := [
    (["dist"], .directory),
    (["dist", "build"], .directory),
    (["dist", "build", "scripts"], .directory),
    (["dist", "build", "scripts", "a.js"], .file "import './b.js';".toUTF8),
    (["dist", "build", "scripts", "b.js"], .file "".toUTF8),
    (["dist", "build", "scripts", "c.js"], .file "export default 1;".toUTF8),
    (["dist", "build", "scripts", "package.js"],
      .file ("export default " ++ packageText ++ ";").toUTF8),
    (["package.json"], .file packageText.toUTF8),
    (["src"], .directory),
    (["src", "scripts"], .directory),
    (["src", "scripts", "a.js"], .file "import './b';".toUTF8),
    (["src", "scripts", "b.js"], .file "".toUTF8),
    (["src", "scripts", "c.json"], .file "1".toUTF8)]
  sorted := by decide
  rooted := by decide

/-- The session in which the project is built first. -/
def scriptSession : Session := .start 7 scriptDisk

lemma exists_fillPacks_scriptDisk : ∃ contents s',
    (fillPacks (.ofRoot ⟨"/"⟩) scriptProject).on scriptSession = (.ok contents, s') ∧
      s'.disk = builtDisk ∧
      contents.outputs = [⟨"/dist/build/scripts/package.js"⟩, ⟨"/dist/build/scripts/a.js"⟩,
        ⟨"/dist/build/scripts/b.js"⟩, ⟨"/dist/build/scripts/c.js"⟩] := by
  have hresult : (((fillPacks (.ofRoot ⟨"/"⟩) scriptProject).on scriptSession).1.toOption.map
      (·.outputs)) =
        some [⟨"/dist/build/scripts/package.js"⟩, ⟨"/dist/build/scripts/a.js"⟩,
          ⟨"/dist/build/scripts/b.js"⟩, ⟨"/dist/build/scripts/c.js"⟩] ∧
      ((fillPacks (.ofRoot ⟨"/"⟩) scriptProject).on scriptSession).2.disk.entries =
        builtDisk.entries := by
    have hvendor : (SessionM.consult (vendorFor (.ofRoot ⟨"/"⟩)
        (scriptProject.packs.flatMap Job.ofPack))).on scriptSession =
          (.ok ⟨[]⟩, scriptSession) := by
      rw [SessionM.on_consult]
      exact congrArg (·, scriptSession) vendorFor_scriptDisk
    rw [fillPacks, on_bind_of_ok hvendor]
    decide +kernel
  generalize (fillPacks (.ofRoot ⟨"/"⟩) scriptProject).on scriptSession = outcome at hresult
  obtain ⟨_ | contents, s'⟩ := outcome
  · cases hresult.1
  · exact ⟨contents, s', rfl, Disk.eq_of_entries hresult.2, Option.some.inj hresult.1⟩

/-- The scripts of the project, its value and its description come to the build path. -/
theorem isUnder_buildPath_scriptDisk : ∃ contents s',
    (fillPacks (.ofRoot ⟨"/"⟩) scriptProject).on scriptSession = (.ok contents, s') ∧
      contents.outputs.length = 4 ∧ ∀ q ∈ contents.outputs, q.IsUnder ⟨"/dist/build"⟩ := by
  obtain ⟨contents, s', hrun, -, hpaths⟩ := exists_fillPacks_scriptDisk
  obtain ⟨-, -, hunder⟩ := isUnder_buildPath (s := scriptSession) proper_scriptDisk
    vendorFor_scriptDisk staysInside_scriptProject
  have hpath : (Config.ofRoot ⟨"/"⟩).buildPath = ⟨"/dist/build"⟩ := by with_unfolding_all rfl
  refine ⟨contents, s', hrun, congrArg List.length hpaths, fun q hq => ?_⟩
  rw [← hpath]
  exact hunder contents s' hrun q hq

end Build

end AddonBuild
