import AddonBuild.Proofs.Disk.Walking
import AddonBuild.Proofs.Glob.Matching
import AddonBuild.Proofs.Path.Parents
import AddonBuild.Proofs.Vendor.Dependencies
import AddonBuild.Vendor.Staging

/-!
# The trees around exports

An alias takes the entry of an export for a path, and puts the captured text in before the path is
cleaned. The glob of the tree around the entry is made from its text. Both come to the same place
when the names of the entry's directories, filled in one by one, are the first on the way to the
file: then the file that the alias points to is among the modules that are staged.
-/

namespace AddonBuild

open AddonBuild.Path (way cleanComponents slashes)
open Pattern (mark fill)

namespace Package

/-! ### The directories of an entry -/

/-- The names of the directories on the way to the file behind an export. -/
def directories (file : String) : List String :=
  (way ⟨file⟩).dropLast.map Path.Component.text

/-- The directory whose tree an export stands for, as a text. -/
def tree (file : String) : String :=
  (Path.ofComponents (((⟨file⟩ : Path).parent?.getD ⟨""⟩).components.filter (· ≠ .here))).slashed

lemma treeGlob_eq (file : String) :
    treeGlob file = if tree file = "" then "**" else tree file ++ "/**" := by
  unfold treeGlob tree
  dsimp only
  generalize Path.slashed _ = directory
  split
  · exact (if_pos rfl).symm
  · next hne => exact (if_neg hne).symm

/-- The text of a tree means itself in a glob, stars apart. -/
structure Legible (file : String) : Prop where
  no_class : '[' ∉ (tree file).toList
  no_components : ¬ ['*', '*'] <:+: (tree file).toList

/-- One name of a directory with text in place of its wildcard. -/
def Fills (name filled : String) : Prop :=
  ∃ value, '/' ∉ value.toList ∧ filled = fill value name

/-- An entry with a captured text put in leads through the directories of the entry. -/
structure Covers (file value : String) : Prop where
  relative : Path.isAbsolute ⟨fill value file⟩ = false
  leads : ∃ names rest, cleanComponents (way ⟨fill value file⟩) = (names ++ rest).map .name ∧
    rest ≠ [] ∧ List.Forall₂ Fills (directories file) names

/-- Any text below is covered in place of a wildcard that stands in the name of the file. -/
lemma Covers.of_last {directory last value : String} (hmark : mark ∉ directory.toList)
    (hrelative : Path.isAbsolute ⟨directory⟩ = false) (hne : directory ≠ "")
    (hup : .up ∉ way ⟨directory⟩) (hslash : '/' ∉ last.toList) (hblank : Path.isBlank last = false)
    (hrest : way ⟨fill value last⟩ ≠ []) (hdown : .up ∉ way ⟨fill value last⟩) :
    Covers (directory ++ "/" ++ last) value := by
  obtain ⟨names, hway⟩ := Path.exists_names_of_way (List.Subset.refl _) hup
  obtain ⟨rest, hlast⟩ := Path.exists_names_of_way (List.Subset.refl _) hdown
  have hfill : fill value (directory ++ "/" ++ last) = directory ++ "/" ++ fill value last := by
    rw [Pattern.fill_append, Pattern.fill_append, Pattern.fill_of_not_mem hmark,
      Pattern.fill_of_not_mem (by decide)]
  have hdirectories : directories (directory ++ "/" ++ last) = names := by
    have hsegments : Path.segments ⟨directory ++ "/" ++ last⟩ =
        Path.segments ⟨directory⟩ ++ [last] := by
      rw [Path.segments_slash, Path.segments_of_not_mem hslash]
    rw [directories, Path.dropLast_way hsegments hblank, ← way, hway, List.map_map]
    exact List.map_id names
  refine ⟨?_, names, rest, ?_, ?_, ?_⟩
  · rw [hfill, ← Bool.not_eq_true, Path.isAbsolute_iff]
    rw [← Bool.not_eq_true, Path.isAbsolute_iff] at hrelative
    obtain ⟨c, rest, hcons⟩ := List.exists_cons_of_ne_nil (mt String.toList_eq_nil_iff.mp hne)
    simpa [hcons] using hrelative
  · rw [hfill, Path.way_slash, hway, hlast, ← List.map_append, Path.cleanComponents_names]
  · rintro rfl
    exact hrest hlast
  · rw [hdirectories, List.forall₂_same]
    intro name hname
    refine ⟨"", by decide, (Pattern.fill_of_not_mem (fun hmem => hmark ?_) "").symm⟩
    exact Path.mem_text_of_mem_way (p := ⟨directory⟩) (hway ▸ List.mem_map_of_mem hname) hmem

/-- The tree of a relative entry is made of its directories. -/
lemma slashes_directories {file : String} (h : Path.isAbsolute ⟨file⟩ = false) :
    if directories file = [] then tree file = "" else
      tree file ≠ "" ∧ '/' :: (tree file).toList = slashes (directories file) := by
  have hstep : ∀ c ∈ (way ⟨file⟩).dropLast, c.IsStep := fun c hc =>
    Path.isStep_of_mem_way (List.dropLast_subset _ hc)
  have htree : tree file = (Path.ofComponents (way ⟨file⟩).dropLast).text := by
    rw [tree, Path.filter_components_parent h, Path.slashed_ofComponents hstep]
  rw [directories, htree]
  split_ifs with hnil
  · rw [List.map_eq_nil_iff.mp hnil]
    rfl
  · have hne := mt List.map_eq_nil_iff.mpr hnil
    have htext := Path.slashes_ofComponents hstep hne
    refine ⟨fun hempty => ?_, htext⟩
    obtain ⟨c, rest, hcons⟩ := List.exists_cons_of_ne_nil hne
    rw [hempty, hcons, List.map_cons] at htext
    have hc : c.text.toList = [] := (List.append_eq_nil_iff.mp (List.cons.inj htext).2.symm).1
    exact (hstep c (hcons ▸ List.mem_cons_self)).text_ne.1 (String.toList_eq_nil_iff.mp hc)

/-! ### The glob of a tree -/

lemma spells_fill {value : String} (hvalue : '/' ∉ value.toList) (name : List Char) :
    Glob.Spells name (name.flatMap fun c => if c = mark then value.toList else [c]) := by
  induction name with
  | nil => exact .nil
  | cons c name ih =>
    rw [List.flatMap_cons]
    split_ifs with hc
    · subst hc
      exact .star hvalue ih
    · exact .char hc ih

lemma spells_slashes {names filled : List String} (h : List.Forall₂ Fills names filled) :
    Glob.Spells (slashes names) (slashes filled) := by
  induction h with
  | nil => exact .nil
  | cons hname _ ih =>
    obtain ⟨value, hvalue, rfl⟩ := hname
    refine .append (.char (by decide) ?_) ih
    rw [fill, String.toList_ofList]
    exact spells_fill hvalue _

lemma Legible.exists_parse {file : String} (h : Legible file) :
    ∃ g, Glob.parse (treeGlob file) = .ok g := by
  rw [treeGlob_eq]
  split_ifs
  · exact ⟨_, Glob.parse_everything⟩
  · exact ⟨_, Glob.parse_tree h.no_class h.no_components⟩

/-- What lies in the directories of an entry, filled in one by one, is matched by its glob. -/
lemma Legible.selects {file : String} (h : Legible file)
    (hrelative : Path.isAbsolute ⟨file⟩ = false) {g : Glob}
    (hg : Glob.parse (treeGlob file) = .ok g) {names rest : List String}
    (hfills : List.Forall₂ Fills (directories file) names) (hrest : rest ≠ []) {text : String}
    (htext : '/' :: text.toList = slashes (names ++ rest)) :
    g.source = Selector.everything ∨ g.isMatch text = true := by
  have htree := slashes_directories hrelative
  rw [treeGlob_eq] at hg
  split_ifs at hg htree with hempty hnil hnil
  · rw [Glob.parse_everything] at hg
    obtain rfl := Except.ok.inj hg
    exact .inl rfl
  · exact absurd hempty htree.1
  · exact absurd htree hempty
  · rw [Glob.parse_tree h.no_class h.no_components] at hg
    obtain rfl := Except.ok.inj hg
    refine .inr ?_
    obtain ⟨filled, hfilled, hspells⟩ :=
      (htree.2 ▸ spells_slashes hfills).of_cons (c := '/') (by decide)
    obtain ⟨last, more, rfl⟩ := List.exists_cons_of_ne_nil hrest
    rw [Path.slashes_append, hfilled, List.cons_append] at htext
    rw [Glob.isMatch, (List.cons.inj htext).2, decide_eq_true_iff]
    exact hspells.run_eq _

end Package

namespace Selector

variable {sources : List String} {s : Selector}

/-- A selector is read just if each of its globs is. -/
lemma exists_parse_iff :
    (∃ s, parse sources = .ok s) ↔ ∀ source ∈ sources, ∃ g, Glob.parse source = .ok g := by
  constructor
  · rintro ⟨s, hs⟩ source hsource
    obtain ⟨globs, hglobs, -⟩ := map_eq_ok.mp hs
    obtain ⟨g, -, hg⟩ := exists_of_mem_right (mapM_eq_ok.mp hglobs).flip hsource
    exact ⟨g, mapError_eq_ok.mp hg⟩
  · intro h
    suffices hglobs : ∃ globs, sources.mapM parseGlob = .ok globs by
      obtain ⟨globs, hglobs⟩ := hglobs
      exact ⟨⟨globs⟩, map_eq_ok.mpr ⟨globs, hglobs, rfl⟩⟩
    induction sources with
    | nil => exact ⟨[], rfl⟩
    | cons source sources ih =>
      obtain ⟨⟨g, hg⟩, hsources⟩ := List.forall_mem_cons.mp h
      obtain ⟨globs, hglobs⟩ := ih hsources
      exact ⟨g :: globs, mapM_eq_ok.mpr (.cons (mapError_eq_ok.mpr hg) (mapM_eq_ok.mp hglobs))⟩

lemma exists_mem_globs (h : parse sources = .ok s) {source : String} (hsource : source ∈ sources) :
    ∃ g ∈ s.globs, Glob.parse source = .ok g := by
  obtain ⟨globs, hglobs, rfl⟩ := map_eq_ok.mp h
  obtain ⟨g, hg, hparse⟩ := exists_of_mem_right (mapM_eq_ok.mp hglobs).flip hsource
  exact ⟨g, hg, mapError_eq_ok.mp hparse⟩

end Selector

namespace StagingTask

variable {d : Disk} {t : StagingTask} {modules : List Path}

/-- The modules of a package are those of the selected files that are modules. -/
lemma modules_eq_ok :
    t.modules d = .ok modules ↔ ∃ selector files, Selector.parse t.files = .ok selector ∧
      d.listFiles t.source = .ok files ∧
      (files.filter selector.selects).filter isModule = modules := by
  rw [StagingTask.modules, bind_eq_ok]
  constructor
  · rintro ⟨selector, hselector, h⟩
    obtain ⟨selected, hselected, h⟩ := bind_eq_ok.mp h
    obtain ⟨files, hfiles, hselected⟩ := bind_eq_ok.mp hselected
    obtain rfl := Except.ok.inj hselected
    exact ⟨selector, files, hselector, mapError_eq_ok.mp hfiles, Except.ok.inj h⟩
  · rintro ⟨selector, files, hselector, hfiles, rfl⟩
    exact ⟨selector, hselector, bind_eq_ok.mpr ⟨_, bind_eq_ok.mpr
      ⟨files, mapError_eq_ok.mpr hfiles, rfl⟩, rfl⟩⟩

end StagingTask

namespace Package

variable {d : Disk} {p : Package} {file value : String} {rel : Location}

/-- A file that an alias points to lies in the directories of the entry, filled in one by one. -/
lemma Covers.exists_split (hcovers : Covers file value)
    (hdirectory : p.directory.isAbsolute = true)
    (hrel : ∀ name ∈ rel, (Path.Component.name name).IsStep)
    (htarget : p.directory.absolutize ⟨fill value file⟩ = (p.directory.join rel.path).clean) :
    ∃ names rest, rel = names ++ rest ∧ rest ≠ [] ∧
      List.Forall₂ Fills (directories file) names := by
  obtain ⟨hrelative, names, rest, hclean, hrest, hfills⟩ := hcovers
  refine ⟨names, rest, ?_, hrest, hfills⟩
  have hpath := (Location.components_path hrel).1
  have hway : way rel.path = rel.map .name := Location.way_path hrel
  -- the alias and the file take the same steps once they are cleaned, so also behind the directory
  have hsteps : (p.directory.join ⟨fill value file⟩).steps =
      (p.directory.join rel.path).steps := by
    rw [Path.absolutize] at htarget
    rw [Path.steps, Path.steps, htarget]
  have hjoin (q : Path) := Path.isAbsolute_join hdirectory q
  rw [Path.steps_of_way_eq hdirectory (hjoin _) (Path.way_join _ hrelative) (by simp [hclean]),
    Path.steps_of_way_eq hdirectory (hjoin _) (Path.way_join _ hpath)
      (by simp [hway, Path.cleanComponents_names]),
    hclean, hway, Path.cleanComponents_names] at hsteps
  have hmap := List.append_cancel_left hsteps
  exact (List.map_injective_iff.mpr (fun _ _ => Path.Component.name.inj) hmap).symm

/-- A package that is described in its directory has that directory. -/
lemma isDirectory_of_read (hdirectory : p.directory.isAbsolute = true) {description : Json}
    (hread : Document.read d p.manifest = .ok description) :
    d.isDirectory p.directory = true := by
  obtain ⟨text, htext, -⟩ := Document.read_eq_ok.mp hread
  obtain ⟨content, hentry, -⟩ := Disk.readText_eq_ok.mp htext
  obtain ⟨l, hmanifest, -⟩ := Disk.entry_eq_ok.mp hentry
  obtain ⟨hlocate, hget⟩ := Disk.locate_of_child hdirectory (by decide) rfl hmanifest
  exact Disk.isDirectory_iff.mpr ⟨hlocate, hget⟩

/-- What lies in the directories of an export, filled in one by one, is selected by the globs of
the package. -/
lemma Legible.selects_path {item : String × String} (h : Legible item.2)
    (hrelative : Path.isAbsolute ⟨item.2⟩ = false) (hitem : item ∈ p.exports)
    (hfiles : p.files = treeGlobs p.exports) {s : Selector} (hs : Selector.parse p.files = .ok s)
    (hrel : ∀ name ∈ rel, (Path.Component.name name).IsStep) {names rest : List String}
    (hsplit : rel = names ++ rest) (hrest : rest ≠ [])
    (hfills : List.Forall₂ Fills (directories item.2) names) : s.selects rel.path = true := by
  have hglob : treeGlob item.2 ∈ p.files := by
    rw [hfiles]
    exact List.mem_eraseDups.mpr (List.mem_map_of_mem hitem)
  obtain ⟨g, hg, hparse⟩ := Selector.exists_mem_globs hs hglob
  have htext : '/' :: rel.path.slashed.toList = slashes (names ++ rest) := by
    have hstep : ∀ c ∈ rel.map Path.Component.name, c.IsStep := by simpa using hrel
    rw [Path.slashed, (Location.components_path hrel).2,
      Path.slashes_ofComponents hstep (by simp [hsplit, hrest]), ← hsplit, List.map_map]
    exact congrArg slashes (List.map_id _)
  rw [Selector.selects, List.any_eq_true]
  exact ⟨g, hg, by simpa using h.selects hrelative hparse hfills hrest htext⟩

end Package

open Package in
/-- The file that an alias of a package points to is staged: it is among the modules of the package,
if it is a script of the package that is there, the glob of the export means what it says, and the
captured text keeps below the directories of the entry. The package has modules just if all of its
globs can be read and its files can be listed. -/
theorem StagingTask.mem_modules_of_export {d : Disk} {file : Path} {exclude : List String}
    {v : Vendor} (hload : Vendor.load d file exclude = .ok v) {p : Package} (hp : p ∈ v.packages)
    {item : String × String} (hitem : item ∈ p.exports) (hlegible : Legible item.2)
    {value : String} (hcovers : Covers item.2 value) {rel : Location}
    (hrel : ∀ name ∈ rel, (Path.Component.name name).IsStep)
    (htarget : p.directory.absolutize ⟨fill value item.2⟩ = (p.directory.join rel.path).clean)
    (hfile : d.isFile (p.directory.absolutize ⟨fill value item.2⟩) = true)
    (hmodule : StagingTask.isModule rel.path = true) (root : Path) :
    (∀ modules, (StagingTask.ofPackage root p).modules d = .ok modules → rel.path ∈ modules) ∧
    ((∃ modules, (StagingTask.ofPackage root p).modules d = .ok modules) ↔
      (∀ other ∈ p.exports, ∃ g, Glob.parse (treeGlob other.2) = .ok g) ∧
        ∃ files, d.listFiles p.directory = .ok files) := by
  obtain ⟨hdirectory, hfiles, description, hread, -⟩ := Vendor.of_mem_packages hload hp
  have hsource := isDirectory_of_read hdirectory hread
  -- the file lies in the directories of the entry, so the glob of the entry matches its path
  obtain ⟨names, rest, hsplit, hrest, hfills⟩ := hcovers.exists_split hdirectory hrel htarget
  constructor
  · intro modules hmodules
    obtain ⟨selector, listed, hselector, hlisted, rfl⟩ := modules_eq_ok.mp hmodules
    have hmem : rel.path ∈ listed := by
      obtain ⟨content, hentry⟩ := Disk.isFile_iff.mp (htarget ▸ hfile)
      have hplace := (Disk.entry_eq_file_iff.mp hentry).2.2.2
      rw [Path.location_clean, Path.location_join_path _ hrel] at hplace
      exact Disk.mem_listFiles hsource hlisted (by simp [hsplit, hrest]) hplace
    have hselected := hlegible.selects_path (Path.isAbsolute_of_fill hcovers.relative) hitem hfiles
      hselector hrel hsplit hrest hfills
    exact List.mem_filter.mpr ⟨List.mem_filter.mpr ⟨hmem, hselected⟩, hmodule⟩
  · have hglobs : (∀ other ∈ p.exports, ∃ g, Glob.parse (treeGlob other.2) = .ok g) ↔
        ∃ selector, Selector.parse p.files = .ok selector := by
      rw [Selector.exists_parse_iff, hfiles]
      simp only [treeGlobs, List.mem_eraseDups, List.forall_mem_map]
    rw [hglobs]
    constructor
    · rintro ⟨modules, hmodules⟩
      obtain ⟨selector, listed, hselector, hlisted, -⟩ := modules_eq_ok.mp hmodules
      exact ⟨⟨selector, hselector⟩, listed, hlisted⟩
    · rintro ⟨⟨selector, hselector⟩, listed, hlisted⟩
      exact ⟨_, modules_eq_ok.mpr ⟨selector, listed, hselector, hlisted, rfl⟩⟩

/-- A project with a package whose scripts are all exported. -/
def treeDisk : Disk where
  entries := [
    (["node_modules"], .directory),
    (["node_modules", "a"], .directory),
    (["node_modules", "a", "dist"], .directory),
    (["node_modules", "a", "dist", "x"], .directory),
    (["node_modules", "a", "dist", "x", "y.js"], .file "".toUTF8),
    (["node_modules", "a", "package.json"],
      .file ("\x7b\"type\":\"module\",\"exports\":" ++
        "\x7b\"./*\":\"./dist/*.js\",\"./q\":\"./[q]/q.js\"\x7d\x7d").toUTF8),
    (["package.json"], .file "\x7b\"dependencies\":\x7b\"a\":\"\"\x7d\x7d".toUTF8)]
  sorted := by decide
  rooted := by decide

/-- Its package. -/
def treePackage : Package where
  name := "a"
  directory := ⟨"/node_modules/a"⟩
  files := ["dist/**", "[q]/**"]
  exports := [("./*", "./dist/*.js"), ("./q", "./[q]/q.js")]

/-- A script that is captured below the directory of the wildcard is staged. -/
theorem StagingTask.mem_modules_of_export_below :
    ∃ v modules, Vendor.load treeDisk ⟨"package.json"⟩ [] = .ok v ∧ v.packages = [treePackage] ∧
      (StagingTask.ofPackage ⟨"/out"⟩ treePackage).modules treeDisk = .ok modules ∧
      ⟨"dist/x/y.js"⟩ ∈ modules := by
  have hload : Vendor.load treeDisk ⟨"package.json"⟩ [] = .ok ⟨[treePackage]⟩ := by
    have hfollows : Vendor.Follows treeDisk ["patch-package"] [] ⟨"a", ⟨"/"⟩⟩
        (.recorded treePackage []) :=
      Vendor.follow_eq_ok.mp (by with_unfolding_all rfl)
    have hvisits : Vendor.Visits treeDisk ["patch-package"] [] [⟨"a", ⟨"/"⟩⟩] [treePackage] :=
      .recorded hfollows .nil .nil
    refine Vendor.load_eq_ok.mpr ⟨.object [("dependencies", .object [("a", .string "")])], ?_, ?_⟩
    · with_unfolding_all rfl
    · exact hvisits
  have hcovers : Package.Covers "./dist/*.js" "x/y" :=
    @Package.Covers.of_last "./dist" "*.js" "x/y" (by decide) (by decide) (by decide)
      (by decide) (by decide) (by decide) (by decide) (by decide)
  have hlegible : Package.Legible "./dist/*.js" := by
    have htree : Package.tree "./dist/*.js" = "dist" := by with_unfolding_all rfl
    constructor <;> rw [htree] <;> decide
  have hrel : ∀ name ∈ ["dist", "x", "y.js"], (Path.Component.name name).IsStep := by
    simp [Path.Component.IsStep]
  have hglobs : ∀ other ∈ treePackage.exports,
      ∃ g, Glob.parse (Package.treeGlob other.2) = .ok g := by
    refine List.forall_mem_cons.mpr ⟨hlegible.exists_parse, List.forall_mem_cons.mpr ⟨?_, nofun⟩⟩
    have htree : Package.treeGlob "./[q]/q.js" = "[q]/**" := by with_unfolding_all rfl
    rw [htree]
    exact ⟨_, by with_unfolding_all rfl⟩
  have hlisted : treeDisk.listFiles ⟨"/node_modules/a"⟩ =
      .ok [⟨"dist/x/y.js"⟩, ⟨"package.json"⟩] := by
    decide +kernel
  obtain ⟨hmem, hmodules⟩ := StagingTask.mem_modules_of_export hload (p := treePackage)
    List.mem_cons_self List.mem_cons_self hlegible hcovers hrel
    (by with_unfolding_all rfl) (by with_unfolding_all rfl) (by with_unfolding_all rfl) ⟨"/out"⟩
  obtain ⟨modules, hmodules⟩ := hmodules.mpr ⟨hglobs, _, hlisted⟩
  exact ⟨_, modules, hload, rfl, hmodules, hmem modules hmodules⟩

end AddonBuild
