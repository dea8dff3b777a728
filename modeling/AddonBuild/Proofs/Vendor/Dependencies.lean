import AddonBuild.Proofs.Vendor.Visiting

/-!
# The closure of a project's dependencies

The packages of a project are closed under dependencies and hold nothing besides: what the project
or one of them asks for is among them in the directory where it is found, unless it offers nothing
at run time, and each of them is reached from the project through others of them.
-/

namespace AddonBuild

/-- Where a package keeps its description. -/
def Package.manifest (p : Package) : Path :=
  p.directory.child "package.json"

lemma Path.same_refl (p : Path) : p.same p = true :=
  decide_eq_true rfl

namespace Vendor

variable {d : Disk} {exclude : List String}

/-! ### Where packages are found -/

lemma find?_eq_some {package : String} {start file : Path} (h : find? d package start = some file) :
    ∃ directory ∈ start.ancestors, file = installed package directory ∧ d.isFile file = true := by
  obtain ⟨directory, hdirectory, hfile⟩ := List.mem_map.mp (List.mem_of_find?_eq_some h)
  exact ⟨directory, hdirectory, hfile.symm, List.find?_some h⟩

lemma isAbsolute_of_find? {package : String} {start file : Path} (hstart : start.isAbsolute = true)
    (h : find? d package start = some file) : file.isAbsolute = true := by
  obtain ⟨directory, hdirectory, rfl, -⟩ := find?_eq_some h
  have habsolute := Path.isAbsolute_of_mem_ancestors hstart hdirectory
  exact Path.isAbsolute_join (Path.isAbsolute_join (Path.isAbsolute_join habsolute _) _) _

/-- The description that is found for a package is the one in the directory of the package. -/
lemma read_directory_child {package : String} {start file : Path} {description : Json}
    (hstart : start.isAbsolute = true) (hfile : find? d package start = some file)
    (hread : Document.read d file = .ok description) :
    Document.read d (file.directory.child "package.json") = .ok description := by
  have habsolute := isAbsolute_of_find? hstart hfile
  obtain ⟨directory, -, hinstalled, -⟩ := find?_eq_some hfile
  have hslash : '/' ∉ "package.json".toList := by decide
  obtain ⟨init, hinit, -⟩ :=
    ((directory.child "node_modules").child package).exists_segments_child hslash
  rw [← installed, ← hinstalled] at hinit
  obtain ⟨text, htext, hparse⟩ := Document.read_eq_ok.mp hread
  obtain ⟨content, hentry, htext⟩ := Disk.readText_eq_ok.mp htext
  obtain ⟨l, hl, hget⟩ := Disk.entry_eq_ok.mp hentry
  have hagain := Disk.locate_directory_child habsolute rfl hslash hinit hl
  have hentry := Disk.entry_eq_ok.mpr ⟨l, hagain, hget⟩
  exact Document.read_eq_ok.mpr ⟨text, Disk.readText_eq_ok.mpr ⟨content, hentry, htext⟩, hparse⟩

/-! ### Closures -/

/-- Whether the description of a package asks for a dependency. -/
def Asks (d : Disk) (exclude : List String) (p : Package) (r : Request) : Prop :=
  ∃ description, Document.read d p.manifest = .ok description ∧
    r ∈ requests exclude description p.directory

lemma Asks.mem_requests {p : Package} {r : Request} {description : Json}
    (h : Asks d exclude p r) (hread : Document.read d p.manifest = .ok description) :
    r ∈ requests exclude description p.directory := by
  obtain ⟨again, hagain, hr⟩ := h
  obtain rfl := Except.ok.inj (hread.symm.trans hagain)
  exact hr

/-- Whether a dependency is found in the directory of a package of its name. -/
def Finds (d : Disk) (r : Request) (p : Package) : Prop :=
  p.name = r.name ∧
    ∃ file, find? d r.name r.start = some file ∧ p.directory.same file.directory = true

/-- Whether a dependency is found where it offers nothing at run time. -/
def FindsNothing (d : Disk) (r : Request) : Prop :=
  ∃ file description, find? d r.name r.start = some file ∧
    Document.read d file = .ok description ∧ Package.exports? r.name description = .ok none

/-- The packages reached from some dependencies through others of the packages. -/
inductive Reachable (d : Disk) (exclude : List String) (roots : List Request)
    (packages : List Package) : Package → Prop where
  | root {r : Request} {p : Package} (hr : r ∈ roots) (hp : p ∈ packages) (hfinds : Finds d r p) :
      Reachable d exclude roots packages p
  | next {p q : Package} {r : Request} (hp : Reachable d exclude roots packages p)
      (hasks : Asks d exclude p r) (hq : q ∈ packages) (hfinds : Finds d r q) :
      Reachable d exclude roots packages q

/-- Packages that some dependencies need, and no others: each package is as its own directory
describes it, what is asked for is found among the packages or offers nothing at run time, and
every package is reached. The packages stand in depth-first order. -/
structure IsClosure (d : Disk) (exclude : List String) (roots : List Request)
    (packages : List Package) : Prop where
  nodup : (packages.map Package.name).Nodup
  not_excluded : ∀ p ∈ packages, p.name ∉ exclude
  described : ∀ p ∈ packages, ∃ description, Document.read d p.manifest = .ok description ∧
    Package.exports? p.name description = .ok (some p.exports)
  globs : ∀ p ∈ packages, p.files.Nodup ∧ ∀ glob,
    glob ∈ p.files ↔ ∃ item ∈ p.exports, Package.treeGlob item.2 = glob
  roots_found : ∀ r ∈ roots, (∃ p ∈ packages, Finds d r p) ∨ FindsNothing d r
  found : ∀ p ∈ packages, ∀ r, Asks d exclude p r →
    (∃ q ∈ packages, Finds d r q) ∨ FindsNothing d r
  reachable : ∀ p ∈ packages, Reachable d exclude roots packages p
  visited : Visits d exclude [] roots packages

/-! ### Visits -/

/-- A package that is recorded, and the requests that it leads to, are as its directory describes
them. -/
lemma Follows.of_recorded {known : List Package} {r : Request} {p : Package} {more : List Request}
    (h : Follows d exclude known r (.recorded p more)) (hstart : r.start.isAbsolute = true) :
    Finds d r p ∧ (∀ q ∈ known, q.name ≠ p.name) ∧ p.directory.isAbsolute = true ∧
      ∃ description, Document.read d p.manifest = .ok description ∧
        Package.exports? p.name description = .ok (some p.exports) ∧
        more = requests exclude description p.directory := by
  cases h with
  | @first file description exports hfile hnew hread hexports =>
    have hdirectory := (Path.directory_of_isAbsolute (isAbsolute_of_find? hstart hfile)).1
    exact ⟨⟨rfl, file, hfile, Path.same_refl _⟩, hnew, hdirectory, description,
      read_directory_child hstart hfile hread, hexports, rfl⟩

/-- The first occurrences in a list are apart. -/
lemma nodup_eraseDups : (l : List String) → l.eraseDups.Nodup
  | [] => .nil
  | a :: l => by
    rw [List.eraseDups_cons, List.nodup_cons]
    exact ⟨by simp, nodup_eraseDups _⟩
termination_by l => l.length
decreasing_by exact Nat.lt_succ_of_le (List.length_filter_le _ _)

/-- A package is recorded with the globs of the trees around its exports. -/
lemma Follows.files_of_recorded {known : List Package} {r : Request} {p : Package}
    {more : List Request} (h : Follows d exclude known r (.recorded p more)) :
    p.files = Package.treeGlobs p.exports := by
  cases h with
  | first => rfl

lemma start_of_mem_requests {description : Json} {start : Path} {r : Request}
    (h : r ∈ requests exclude description start) : r.start = start ∧ r.name ∉ exclude := by
  obtain ⟨name, hname, rfl⟩ := List.mem_map.mp h
  exact ⟨rfl, by simpa using (List.mem_filter.mp hname).2⟩

/-- Requests that a walk has in hand: they start from absolute directories and are not excluded. -/
def Sound (exclude : List String) (pending : List Request) : Prop :=
  ∀ r ∈ pending, r.start.isAbsolute = true ∧ r.name ∉ exclude

lemma sound_requests {start : Path} (hstart : start.isAbsolute = true) (description : Json) :
    Sound exclude (requests exclude description start) := by
  intro r hr
  obtain ⟨hrstart, hname⟩ := start_of_mem_requests hr
  exact ⟨hrstart ▸ hstart, hname⟩

lemma Sound.tail {r : Request} {rest : List Request} (h : Sound exclude (r :: rest)) :
    Sound exclude rest :=
  fun q hq => h q (List.mem_cons_of_mem _ hq)

lemma Follows.sound_more {known : List Package} {r : Request} {p : Package} {more : List Request}
    (h : Follows d exclude known r (.recorded p more)) (hstart : r.start.isAbsolute = true) :
    Sound exclude more := by
  obtain ⟨-, -, hdirectory, description, -, -, rfl⟩ := h.of_recorded hstart
  exact sound_requests hdirectory description

/-- What is asked for is found among the packages recorded in the end. -/
lemma Visits.found {known new : List Package} {pending : List Request}
    (h : Visits d exclude known pending new) (hsound : Sound exclude pending) :
    ∀ r ∈ pending, (∃ p ∈ known ++ new, Finds d r p) ∨ FindsNothing d r := by
  induction h with
  | nil => simp
  | @settled known new r rest hr hrest ih =>
    intro q hq
    rcases List.mem_cons.mp hq with rfl | hq
    · cases hr with
      | @again file p hfile hknown hsame =>
        have hname : p.name = q.name := by simpa using List.find?_some hknown
        have hp := List.mem_append_left new (List.mem_of_find?_eq_some hknown)
        exact .inl ⟨p, hp, hname, file, hfile, hsame⟩
      | @absent file description hfile hnew hread hexports =>
        exact .inr ⟨file, description, hfile, hread, hexports⟩
    · exact ih hsound.tail q hq
  | @recorded known inner outer r p more rest hr hinner houter _ ih =>
    intro q hq
    rcases List.mem_cons.mp hq with rfl | hq
    · exact .inl ⟨p, by simp, (hr.of_recorded (hsound q List.mem_cons_self).1).1⟩
    · simpa using ih hsound.tail q hq

/-- What a package recorded on the way asks for is found among the packages as well. -/
lemma Visits.found_of_asks {known new : List Package} {pending : List Request}
    (h : Visits d exclude known pending new) (hsound : Sound exclude pending) :
    ∀ p ∈ new, ∀ r, Asks d exclude p r →
      (∃ q ∈ known ++ new, Finds d r q) ∨ FindsNothing d r := by
  induction h with
  | nil => simp
  | settled hr hrest ih => exact ih hsound.tail
  | @recorded known inner outer r p more rest hr hinner houter ihinner ihouter =>
    have hstart := (hsound r List.mem_cons_self).1
    intro q hq s hasks
    have widen : (∃ t ∈ known ++ [p] ++ inner, Finds d s t) ∨ FindsNothing d s →
        (∃ t ∈ known ++ p :: (inner ++ outer), Finds d s t) ∨ FindsNothing d s := by
      have hsplit : known ++ p :: (inner ++ outer) = known ++ [p] ++ inner ++ outer := by simp
      refine Or.imp_left ?_
      rintro ⟨t, ht, hfinds⟩
      exact ⟨t, hsplit ▸ List.mem_append_left outer ht, hfinds⟩
    rcases List.mem_cons.mp hq with rfl | hq
    · obtain ⟨-, -, -, description, hread, -, hmore⟩ := hr.of_recorded hstart
      exact widen (hinner.found (hr.sound_more hstart) s (hmore ▸ hasks.mem_requests hread))
    · rcases List.mem_append.mp hq with hq | hq
      · exact widen (ihinner (hr.sound_more hstart) q hq s hasks)
      · simpa using ihouter hsound.tail q hq s hasks

/-- What holds of the packages that are asked for at first, and passes from each package to those
it asks for, holds of every package recorded on the way. -/
lemma Visits.forall_new {packages : List Package} {R : Package → Prop}
    (hnext : ∀ p ∈ packages, R p → ∀ r, Asks d exclude p r → ∀ q ∈ packages, Finds d r q → R q)
    {known new : List Package} {pending : List Request} (h : Visits d exclude known pending new)
    (hsound : Sound exclude pending) (hsub : new ⊆ packages)
    (hpending : ∀ r ∈ pending, ∀ q ∈ packages, Finds d r q → R q) : ∀ p ∈ new, R p := by
  induction h with
  | nil => simp
  | settled hr hrest ih =>
    exact ih hsound.tail hsub fun r hr => hpending r (List.mem_cons_of_mem _ hr)
  | @recorded known inner outer r p more rest hr hinner houter ihinner ihouter =>
    have hstart := (hsound r List.mem_cons_self).1
    obtain ⟨hfinds, -, -, description, hread, -, hmore⟩ := hr.of_recorded hstart
    have hp : p ∈ packages := hsub List.mem_cons_self
    have hRp : R p := hpending r List.mem_cons_self p hp hfinds
    have hinnersub : inner ⊆ packages := fun q hq => hsub (by simp [hq])
    have houtersub : outer ⊆ packages := fun q hq => hsub (by simp [hq])
    have hinnernew := ihinner (hr.sound_more hstart) hinnersub fun s hs q hq hsq =>
      hnext p hp hRp s ⟨description, hread, hmore ▸ hs⟩ q hq hsq
    have houternew := ihouter hsound.tail houtersub fun s hs =>
      hpending s (List.mem_cons_of_mem _ hs)
    intro q hq
    rcases List.mem_cons.mp hq with rfl | hq
    · exact hRp
    · exact (List.mem_append.mp hq).elim (hinnernew q) (houternew q)

/-- No name is recorded twice. -/
lemma Visits.nodup {known new : List Package} {pending : List Request}
    (h : Visits d exclude known pending new) (hsound : Sound exclude pending)
    (hknown : (known.map Package.name).Nodup) : ((known ++ new).map Package.name).Nodup := by
  induction h with
  | nil => simpa using hknown
  | settled hr hrest ih => exact ih hsound.tail hknown
  | @recorded known inner outer r p more rest hr hinner houter ihinner ihouter =>
    have hstart := (hsound r List.mem_cons_self).1
    have hfresh := (hr.of_recorded hstart).2.1
    have hp : ((known ++ [p]).map Package.name).Nodup := by
      rw [List.map_append, List.nodup_append]
      refine ⟨hknown, by simp, ?_⟩
      simpa using hfresh
    have hinnernodup := ihinner (hr.sound_more hstart) hp
    rw [List.append_assoc] at hinnernodup
    simpa using ihouter hsound.tail hinnernodup

/-- Every new package was recorded by a request that starts from an absolute directory. -/
lemma Visits.exists_recorded {known new : List Package} {pending : List Request}
    (h : Visits d exclude known pending new) (hsound : Sound exclude pending) :
    ∀ p ∈ new, ∃ known r more, Follows d exclude known r (.recorded p more) ∧
      r.start.isAbsolute = true := by
  induction h with
  | nil => simp
  | settled hr hrest ih => exact ih hsound.tail
  | @recorded known inner outer r p more rest hr hinner houter ihinner ihouter =>
    have hstart := (hsound r List.mem_cons_self).1
    intro q hq
    rcases List.mem_cons.mp hq with rfl | hq
    · exact ⟨known, r, more, hr, hstart⟩
    · exact (List.mem_append.mp hq).elim (ihinner (hr.sound_more hstart) q)
        (ihouter hsound.tail q)

lemma Visits.described {known new : List Package} {pending : List Request}
    (h : Visits d exclude known pending new) (hsound : Sound exclude pending) :
    ∀ p ∈ new, ∃ description, Document.read d p.manifest = .ok description ∧
      Package.exports? p.name description = .ok (some p.exports) := by
  intro p hp
  obtain ⟨_, _, _, hr, hstart⟩ := h.exists_recorded hsound p hp
  obtain ⟨-, -, -, description, hread, hexports, -⟩ := hr.of_recorded hstart
  exact ⟨description, hread, hexports⟩

lemma Visits.files {known new : List Package} {pending : List Request}
    (h : Visits d exclude known pending new) (hsound : Sound exclude pending) :
    ∀ p ∈ new, p.files = Package.treeGlobs p.exports := by
  intro p hp
  obtain ⟨_, _, _, hr, -⟩ := h.exists_recorded hsound p hp
  exact hr.files_of_recorded

lemma Visits.isAbsolute_directory {known new : List Package} {pending : List Request}
    (h : Visits d exclude known pending new) (hsound : Sound exclude pending) :
    ∀ p ∈ new, p.directory.isAbsolute = true := by
  intro p hp
  obtain ⟨_, _, _, hr, hstart⟩ := h.exists_recorded hsound p hp
  exact (hr.of_recorded hstart).2.2.1

lemma name_not_mem_of_reachable {roots : List Request} {packages : List Package} {p : Package}
    (hroots : Sound exclude roots) (h : Reachable d exclude roots packages p) :
    p.name ∉ exclude := by
  cases h with
  | root hr _ hfinds => exact hfinds.1 ▸ (hroots _ hr).2
  | next _ hasks _ hfinds =>
    obtain ⟨description, -, hr⟩ := hasks
    exact hfinds.1 ▸ (start_of_mem_requests hr).2

/-- Visiting requests from nothing records a closure. -/
lemma Visits.isClosure {roots : List Request} {packages : List Package}
    (h : Visits d exclude [] roots packages) (hroots : Sound exclude roots) :
    IsClosure d exclude roots packages := by
  have hreachable : ∀ p ∈ packages, Reachable d exclude roots packages p :=
    h.forall_new (fun p _ hp r hasks q hq hfinds => .next hp hasks hq hfinds) hroots
      (List.Subset.refl _) fun r hr q hq hfinds => .root hr hq hfinds
  exact {
    nodup := h.nodup hroots List.nodup_nil
    not_excluded := fun p hp => name_not_mem_of_reachable hroots (hreachable p hp)
    described := h.described hroots
    globs := fun p hp => by
      rw [h.files hroots p hp]
      exact ⟨nodup_eraseDups _, fun glob => by simp [Package.treeGlobs]⟩
    roots_found := h.found hroots
    found := h.found_of_asks hroots
    reachable := hreachable
    visited := h }

/-- The packages that a project needs are the closure of the dependencies it describes. -/
theorem isClosure_of_load {file : Path} {v : Vendor} (h : load d file exclude = .ok v) :
    ∃ description, Document.read d ((⟨"/"⟩ : Path).absolutize file) = .ok description ∧
      IsClosure d (defaultExclude ++ exclude)
        (requests (defaultExclude ++ exclude) description
          ((⟨"/"⟩ : Path).absolutize file).directory) v.packages := by
  obtain ⟨description, hread, hvisits⟩ := load_eq_ok.mp h
  have hfile : ((⟨"/"⟩ : Path).absolutize file).isAbsolute = true :=
    Path.absolutize_isAbsolute rfl file
  have hdirectory := (Path.directory_of_isAbsolute hfile).1
  exact ⟨description, hread, hvisits.isClosure (sound_requests hdirectory description)⟩

/-- A package that is recorded is described in its directory, which is named from the root. -/
lemma of_mem_packages {file : Path} {v : Vendor} (h : load d file exclude = .ok v) {p : Package}
    (hp : p ∈ v.packages) :
    p.directory.isAbsolute = true ∧ p.files = Package.treeGlobs p.exports ∧
      ∃ description, Document.read d p.manifest = .ok description ∧
        Package.exports? p.name description = .ok (some p.exports) := by
  obtain ⟨description, -, hvisits⟩ := load_eq_ok.mp h
  have hfile : ((⟨"/"⟩ : Path).absolutize file).isAbsolute = true :=
    Path.absolutize_isAbsolute rfl file
  have hdirectory := (Path.directory_of_isAbsolute hfile).1
  have hsound : Sound (defaultExclude ++ exclude) _ := sound_requests hdirectory description
  exact ⟨hvisits.isAbsolute_directory hsound p hp, hvisits.files hsound p hp,
    hvisits.described hsound p hp⟩

/-- The description of a package that exports a script and all scripts of a directory, and needs
`b`. -/
def exportingText : String :=
  "\x7b\"type\":\"module\",\"exports\":\x7b\".\":\"./lib/a.js\",\"./*\":\"./util/*.js\"\x7d," ++
    "\"dependencies\":\x7b\"b\":\"\"\x7d\x7d"

/-- A project that needs `a`, which needs `b`, which needs `a` again and the types `t`. -/
def mutualDisk : Disk where
  entries := [
    (["node_modules"], .directory),
    (["node_modules", "a"], .directory),
    (["node_modules", "a", "package.json"], .file exportingText.toUTF8),
    (["node_modules", "b"], .directory),
    (["node_modules", "b", "package.json"],
      .file "\x7b\"module\":\"b.js\",\"dependencies\":\x7b\"a\":\"\",\"t\":\"\"\x7d\x7d".toUTF8),
    (["node_modules", "t"], .directory),
    (["node_modules", "t", "package.json"], .file "\x7b\x7d".toUTF8),
    (["package.json"], .file "\x7b\"dependencies\":\x7b\"a\":\"\",\"c\":\"\"\x7d\x7d".toUTF8)]
  sorted := by decide
  rooted := by decide

/-- The first of its packages. -/
def exportingPackage : Package where
  name := "a"
  directory := ⟨"/node_modules/a"⟩
  files := ["lib/**", "util/**"]
  exports := [(".", "./lib/a.js"), ("./*", "./util/*.js")]

/-- The second one. -/
def plainPackage : Package where
  name := "b"
  directory := ⟨"/node_modules/b"⟩
  files := ["**"]
  exports := [(".", "b.js")]

/-- Packages that need each other are recorded once each, and types not at all. -/
theorem isClosure_of_load_mutual :
    ∃ v description, load mutualDisk ⟨"package.json"⟩ ["c"] = .ok v ∧
      v.packages = [exportingPackage, plainPackage] ∧
      IsClosure mutualDisk ["patch-package", "c"]
        (requests ["patch-package", "c"] description ⟨"/"⟩) v.packages := by
  have hfile : (⟨"/"⟩ : Path).absolutize ⟨"package.json"⟩ = ⟨"/package.json"⟩ := by
    with_unfolding_all rfl
  have hdirectory : ((⟨"/"⟩ : Path).absolutize ⟨"package.json"⟩).directory = ⟨"/"⟩ := by
    with_unfolding_all rfl
  have ha : Follows mutualDisk ["patch-package", "c"] [] ⟨"a", ⟨"/"⟩⟩
      (.recorded exportingPackage [⟨"b", ⟨"/node_modules/a"⟩⟩]) :=
    follow_eq_ok.mp (by with_unfolding_all rfl)
  have hb : Follows mutualDisk ["patch-package", "c"] [exportingPackage]
      ⟨"b", ⟨"/node_modules/a"⟩⟩
      (.recorded plainPackage [⟨"a", ⟨"/node_modules/b"⟩⟩, ⟨"t", ⟨"/node_modules/b"⟩⟩]) :=
    follow_eq_ok.mp (by with_unfolding_all rfl)
  have hagain : Follows mutualDisk ["patch-package", "c"] [exportingPackage, plainPackage]
      ⟨"a", ⟨"/node_modules/b"⟩⟩ .settled :=
    follow_eq_ok.mp (by with_unfolding_all rfl)
  have ht : Follows mutualDisk ["patch-package", "c"] [exportingPackage, plainPackage]
      ⟨"t", ⟨"/node_modules/b"⟩⟩ .settled :=
    follow_eq_ok.mp (by with_unfolding_all rfl)
  have hvisits : Visits mutualDisk ["patch-package", "c"] [] [⟨"a", ⟨"/"⟩⟩]
      [exportingPackage, plainPackage] :=
    (Visits.recorded ha (.recorded hb (.settled hagain (.settled ht .nil)) .nil) .nil :)
  obtain ⟨description, hread, hrequests⟩ :
      ∃ description, Document.read mutualDisk ⟨"/package.json"⟩ = .ok description ∧
        requests ["patch-package", "c"] description ⟨"/"⟩ = [⟨"a", ⟨"/"⟩⟩] :=
    ⟨.object [("dependencies", .object [("a", .string ""), ("c", .string "")])],
      by with_unfolding_all rfl, by with_unfolding_all rfl⟩
  have hload : load mutualDisk ⟨"package.json"⟩ ["c"] =
      .ok ⟨[exportingPackage, plainPackage]⟩ := by
    refine load_eq_ok.mpr ⟨description, hfile ▸ hread, ?_⟩
    rw [hdirectory]
    exact hrequests ▸ hvisits
  obtain ⟨again, -, hclosure⟩ := isClosure_of_load hload
  rw [hdirectory] at hclosure
  exact ⟨_, again, hload, rfl, hclosure⟩

end Vendor

end AddonBuild
