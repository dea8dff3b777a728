import AddonBuild.Proofs.Vendor.Needs
import Mathlib.Data.List.Perm.Basic
import Mathlib.Data.Option.Defs

/-!
# The order in which dependencies are listed

A description may list its dependencies in another order without anything else being different.
On a disk where some descriptions do so, the same files are found and the same things are needed,
so the same packages are recorded as long as no name is ambiguous.
-/

namespace AddonBuild

/-! ### Descriptions -/

namespace Document

/-- The same description, except that its dependencies may stand in another order. -/
inductive Reordered : Json → Json → Prop where
  | refl (description : Json) : Reordered description description
  | dependencies {before after listed listed' : Json.Members} (h : listed.Perm listed') :
      Reordered (.object (before ++ ("dependencies", .object listed) :: after))
        (.object (before ++ ("dependencies", .object listed') :: after))

variable {description description' : Json}

lemma Reordered.symm (h : Reordered description description') :
    Reordered description' description := by
  cases h with
  | refl => exact .refl _
  | dependencies h => exact .dependencies h.symm

lemma Reordered.get?_eq (h : Reordered description description') (key : String)
    (hkey : key ≠ "dependencies") : description.get? key = description'.get? key := by
  cases h with
  | refl => rfl
  | dependencies =>
    have hbeq : (key == "dependencies") = false := beq_eq_false_iff_ne.mpr hkey
    simp [Json.get?, List.lookup_append, List.lookup_cons, hbeq]

lemma Reordered.dependencyNames_perm (h : Reordered description description') :
    (dependencyNames description).Perm (dependencyNames description') := by
  cases h with
  | refl => exact .refl _
  | @dependencies before after listed listed' h =>
    rw [dependencyNames, dependencyNames]
    simp only [Json.get?, List.lookup_append, List.lookup_cons_self]
    cases before.lookup "dependencies" with
    | none => exact h.map _
    | some found => exact .refl _

/-- What a package offers does not depend on its dependencies. -/
lemma Reordered.exports?_eq (h : Reordered description description') (package : String) :
    Package.exports? package description = Package.exports? package description' := by
  simp only [Package.exports?, Package.exportsMember?, Json.getString?,
    h.get?_eq "module" (by decide), h.get?_eq "type" (by decide),
    h.get?_eq "exports" (by decide), h.get?_eq "main" (by decide)]
  rfl

lemma Reordered.mem_requests (h : Reordered description description') {exclude : List String}
    {start : Path} {r : Vendor.Request} (hr : r ∈ Vendor.requests exclude description start) :
    r ∈ Vendor.requests exclude description' start :=
  ((h.dependencyNames_perm.filter _).map _).subset hr

end Document

/-! ### Disks -/

/-- The same entry, except that a description may list its dependencies in another order. -/
inductive Entry.Reordered : Entry → Entry → Prop where
  | refl (entry : Entry) : Reordered entry entry
  | description {content content' : ByteArray} {text text' : String}
      {description description' : Json}
      (htext : String.fromUTF8? content = some text)
      (htext' : String.fromUTF8? content' = some text')
      (hparse : Json.parse text.toUTF8.data.toList = .ok description)
      (hparse' : Json.parse text'.toUTF8.data.toList = .ok description')
      (h : Document.Reordered description description') : Reordered (.file content) (.file content')

lemma Entry.Reordered.symm {e e' : Entry} (h : e.Reordered e') : e'.Reordered e := by
  cases h with
  | refl => exact .refl _
  | description htext htext' hparse hparse' h =>
    exact .description htext' htext hparse' hparse h.symm

namespace Disk

/-- The same disk, except that descriptions may list their dependencies in another order. -/
def Reordered (d d' : Disk) : Prop :=
  ∀ l, Option.Rel Entry.Reordered (d.get? l) (d'.get? l)

variable {d d' : Disk}

lemma Reordered.symm (h : d.Reordered d') : d'.Reordered d := by
  intro l
  cases hget : d.get? l <;> cases hget' : d'.get? l <;> have hl := h l <;> rw [hget, hget'] at hl
  · exact .none
  · cases hl
  · cases hl
  · cases hl with
    | some h => exact .some h.symm

/-- Disks whose entries are the same one by one, except for the order of dependencies. -/
lemma Reordered.of_entries
    (h : List.Forall₂ (fun a b => a.1 = b.1 ∧ a.2.Reordered b.2) d.entries d'.entries) :
    d.Reordered d' := by
  intro l
  rw [get?, get?]
  generalize d.entries = entries at h ⊢
  generalize d'.entries = entries' at h ⊢
  split_ifs
  · exact .some (.refl _)
  · induction h with
    | nil => exact .none
    | @cons a b as bs hab _ ih =>
      obtain ⟨k, e⟩ := a
      obtain ⟨k', e'⟩ := b
      obtain ⟨rfl, he⟩ := hab
      rw [List.lookup_cons, List.lookup_cons]
      cases l == k with
      | true => exact .some he
      | false => exact ih

lemma Reordered.descend_eq (h : d.Reordered d') (segments : List String) (here : Location) :
    d.descend here segments = d'.descend here segments := by
  induction segments generalizing here with
  | nil => rfl
  | cons segment rest ih =>
    rw [descend, descend, ih, ih]
    simp only [ih]
    have hnext := h (here ++ [segment])
    generalize d.get? (here ++ [segment]) = found at hnext ⊢
    generalize d'.get? (here ++ [segment]) = found' at hnext ⊢
    cases hnext with
    | none => rfl
    | some h =>
      cases h with
      | refl => rfl
      | description => rfl

lemma Reordered.locate_eq (h : d.Reordered d') (p : Path) : d.locate p = d'.locate p := by
  rw [locate, locate, h.descend_eq]

lemma Reordered.exists_entry (h : d.Reordered d') {p : Path} {e : Entry} (hp : d.entry p = .ok e) :
    ∃ e', d'.entry p = .ok e' ∧ e.Reordered e' := by
  obtain ⟨l, hl, hget⟩ := entry_eq_ok.mp hp
  have hrel := h l
  rw [hget] at hrel
  cases hget' : d'.get? l with
  | none =>
    rw [hget'] at hrel
    cases hrel
  | some e' =>
    rw [hget'] at hrel
    cases hrel with
    | some he => exact ⟨e', entry_eq_ok.mpr ⟨l, h.locate_eq p ▸ hl, hget'⟩, he⟩

lemma Reordered.isFile_of_isFile (h : d.Reordered d') {p : Path} (hp : d.isFile p = true) :
    d'.isFile p = true := by
  obtain ⟨content, hentry⟩ := isFile_iff.mp hp
  obtain ⟨e', hentry', he⟩ := h.exists_entry hentry
  cases he with
  | refl => exact isFile_iff.mpr ⟨content, hentry'⟩
  | description => exact isFile_iff.mpr ⟨_, hentry'⟩

lemma Reordered.isFile_eq (h : d.Reordered d') (p : Path) : d.isFile p = d'.isFile p :=
  Bool.eq_iff_iff.mpr ⟨h.isFile_of_isFile, h.symm.isFile_of_isFile⟩

/-- What is read as a description is read as one that lists the same dependencies. -/
lemma Reordered.exists_read (h : d.Reordered d') {file : Path} {description : Json}
    (hread : Document.read d file = .ok description) :
    ∃ description', Document.read d' file = .ok description' ∧
      Document.Reordered description description' := by
  obtain ⟨text, htext, hparse⟩ := Document.read_eq_ok.mp hread
  obtain ⟨content, hentry, htext⟩ := readText_eq_ok.mp htext
  obtain ⟨e', hentry', he⟩ := h.exists_entry hentry
  cases he with
  | refl =>
    have hread' := readText_eq_ok.mpr ⟨content, hentry', htext⟩
    exact ⟨description, Document.read_eq_ok.mpr ⟨text, hread', hparse⟩, .refl _⟩
  | @description content content' again text' described description' hagain htext' hdescribed
      hparse' hreordered =>
    obtain rfl := Option.some.inj (htext.symm.trans hagain)
    obtain rfl := Except.ok.inj (hparse.symm.trans hdescribed)
    have hread' := readText_eq_ok.mpr ⟨content', hentry', htext'⟩
    exact ⟨description', Document.read_eq_ok.mpr ⟨text', hread', hparse'⟩, hreordered⟩

end Disk

namespace Vendor

/-! ### What is needed -/

variable {d d' : Disk} {exclude : List String} {roots roots' : List Request}

lemma find?_reordered (h : d.Reordered d') (package : String) (start : Path) :
    find? d package start = find? d' package start := by
  have hisFile : d.isFile = d'.isFile := funext h.isFile_eq
  rw [find?, find?, hisFile]

lemma Offers.reordered (h : d.Reordered d') {r : Request} {p : Package} (hp : Offers d r p) :
    Offers d' r p := by
  obtain ⟨file, description, hfile, hread, hexports, hplace⟩ := hp
  obtain ⟨description', hread', hdescription⟩ := h.exists_read hread
  exact ⟨file, description', (find?_reordered h _ _).symm.trans hfile, hread',
    hdescription.exports?_eq _ ▸ hexports, hplace⟩

lemma FindsNothing.reordered (h : d.Reordered d') {r : Request} (hr : FindsNothing d r) :
    FindsNothing d' r := by
  obtain ⟨file, description, hfile, hread, hexports⟩ := hr
  obtain ⟨description', hread', hdescription⟩ := h.exists_read hread
  exact ⟨file, description', (find?_reordered h _ _).symm.trans hfile, hread',
    hdescription.exports?_eq _ ▸ hexports⟩

lemma Asks.reordered (h : d.Reordered d') {p : Package} {r : Request} (hr : Asks d exclude p r) :
    Asks d' exclude p r := by
  obtain ⟨description, hread, hmem⟩ := hr
  obtain ⟨description', hread', hdescription⟩ := h.exists_read hread
  exact ⟨description', hread', hdescription.mem_requests hmem⟩

lemma Needed.reordered (h : d.Reordered d') (hroots : roots ⊆ roots') {r : Request}
    (hr : Needed d exclude roots r) : Needed d' exclude roots' r := by
  induction hr with
  | root hr => exact .root (hroots hr)
  | next _ hp hq ih => exact .next ih (hp.reordered h) (hq.reordered h)

lemma Unambiguous.reordered (h : d.Reordered d') (hroots : roots' ⊆ roots)
    (hclear : Unambiguous d exclude roots) : Unambiguous d' exclude roots' where
  alike hr hr' hname hp hnothing :=
    hclear.alike (hr.reordered h.symm hroots) (hr'.reordered h.symm hroots) hname
      (hp.reordered h.symm) (hnothing.reordered h.symm)
  found_alike hr hr' hname hsame := by
    rw [← find?_reordered h, ← find?_reordered h]
    exact hclear.found_alike (hr.reordered h.symm hroots) (hr'.reordered h.symm hroots) hname hsame

lemma Consistent.reordered (h : d.Reordered d') (hroots : roots' ⊆ roots)
    (hconsistent : Consistent d exclude roots) : Consistent d' exclude roots' where
  resolved hr := by
    rcases hconsistent.resolved (hr.reordered h.symm hroots) with ⟨p, hp⟩ | hnothing
    · exact .inl ⟨p, hp.reordered h⟩
    · exact .inr (hnothing.reordered h)
  single hr hr' hp hp' hname :=
    hconsistent.single (hr.reordered h.symm hroots) (hr'.reordered h.symm hroots)
      (hp.reordered h.symm) (hp'.reordered h.symm) hname

/-! ### What is recorded -/

/-- What a project asks for, unless its description cannot be read. -/
def rootRequests (d : Disk) (file : Path) (exclude : List String) : List Request :=
  match Document.read d ((⟨"/"⟩ : Path).absolutize file) with
  | .ok description =>
    requests (defaultExclude ++ exclude) description ((⟨"/"⟩ : Path).absolutize file).directory
  | .error _ => []

lemma sound_rootRequests (d : Disk) (file : Path) (exclude : List String) :
    Sound (defaultExclude ++ exclude) (rootRequests d file exclude) := by
  unfold rootRequests
  split
  · exact sound_requests (Path.directory_of_isAbsolute (Path.absolutize_isAbsolute rfl file)).1 _
  · intro r hr
    cases hr

lemma visits_of_load {file : Path} {v : Vendor} (h : load d file exclude = .ok v) :
    Visits d (defaultExclude ++ exclude) [] (rootRequests d file exclude) v.packages := by
  obtain ⟨description, hread, hvisits⟩ := load_eq_ok.mp h
  unfold rootRequests
  rw [hread]
  exact hvisits

lemma Reordered.rootRequests_subset (h : d.Reordered d') (file : Path) (exclude : List String) :
    rootRequests d file exclude ⊆ rootRequests d' file exclude := by
  unfold rootRequests
  split
  case h_1 description hread =>
    obtain ⟨description', hread', hdescription⟩ := h.exists_read hread
    rw [hread']
    exact fun r hr => hdescription.mem_requests hr
  case h_2 => simp

/-- If the packages of a project can be found, so they can in any other order. -/
lemma exists_load_reordered (h : d.Reordered d') {file : Path}
    (hclear : Unambiguous d (defaultExclude ++ exclude) (rootRequests d file exclude)) {v : Vendor}
    (hload : load d file exclude = .ok v) : ∃ v', load d' file exclude = .ok v' := by
  have hsubset := Reordered.rootRequests_subset h.symm file exclude
  have hconsistent :=
    ((visits_of_load hload).consistent (sound_rootRequests d file exclude) hclear).reordered h
      hsubset
  obtain ⟨description, hread, -⟩ := load_eq_ok.mp hload
  obtain ⟨description', hread', -⟩ := h.exists_read hread
  have hroots : rootRequests d' file exclude = requests (defaultExclude ++ exclude) description'
      ((⟨"/"⟩ : Path).absolutize file).directory := by
    unfold rootRequests
    rw [hread']
  obtain ⟨packages, hwalk⟩ := hconsistent.exists_walk (sound_rootRequests d' file exclude)
    (hclear.reordered h hsubset) [] (hroots ▸ mem_namesOn_of_requests hread')
    (by simp) fun r hr => .root hr
  obtain ⟨new, -, hvisits⟩ := exists_visits_of_walk hwalk
  exact ⟨⟨new⟩, load_eq_ok.mpr ⟨description', hread', hroots ▸ hvisits⟩⟩

lemma nodup_identities {packages : List Package} (h : (packages.map Package.name).Nodup) :
    (packages.map Package.identity).Nodup := by
  apply List.Nodup.of_map Prod.fst
  rwa [List.map_map]

/-- Unless a name is ambiguous, the order in which dependencies are listed decides neither whether
the packages of a project are found nor which these are, and two packages of one name are refused
in every order. -/
theorem load_reordered (h : d.Reordered d') {file : Path}
    (hclear : Unambiguous d (defaultExclude ++ exclude) (rootRequests d file exclude)) :
    ((∃ v, load d file exclude = .ok v) ↔ ∃ v, load d' file exclude = .ok v) ∧
    (∀ v v', load d file exclude = .ok v → load d' file exclude = .ok v' →
      (v.packages.map Package.identity).Perm (v'.packages.map Package.identity)) ∧
    (∀ r r' p file₁ file₂, Needed d (defaultExclude ++ exclude) (rootRequests d file exclude) r →
      Needed d (defaultExclude ++ exclude) (rootRequests d file exclude) r' → r.name = r'.name →
      find? d r.name r.start = some file₁ → find? d r'.name r'.start = some file₂ →
      file₁.directory.same file₂.directory = false → Offers d r p →
      ∀ v, load d' file exclude ≠ .ok v) := by
  have hsubset := Reordered.rootRequests_subset h file exclude
  have hsubset' := Reordered.rootRequests_subset h.symm file exclude
  have hclear' := hclear.reordered h hsubset'
  refine ⟨⟨?_, ?_⟩, ?_, ?_⟩
  · rintro ⟨v, hload⟩
    exact exists_load_reordered h hclear hload
  · rintro ⟨v, hload⟩
    exact exists_load_reordered h.symm hclear' hload
  · intro v v' hload hload'
    have hvisits := visits_of_load hload
    have hvisits' := visits_of_load hload'
    have hnodup := nodup_identities (hvisits.isClosure (sound_rootRequests d file exclude)).nodup
    have hnodup' :=
      nodup_identities (hvisits'.isClosure (sound_rootRequests d' file exclude)).nodup
    rw [List.perm_ext_iff_of_nodup hnodup hnodup']
    intro i
    rw [hvisits.mem_identities_iff (sound_rootRequests d file exclude) hclear,
      hvisits'.mem_identities_iff (sound_rootRequests d' file exclude) hclear']
    constructor
    · rintro ⟨r, p, hr, hp, hi⟩
      exact ⟨r, p, hr.reordered h hsubset, hp.reordered h, hi⟩
    · rintro ⟨r, p, hr, hp, hi⟩
      exact ⟨r, p, hr.reordered h.symm hsubset', hp.reordered h.symm, hi⟩
  · intro r r' p file₁ file₂ hr hr' hname hfile₁ hfile₂ hdifferent hp v hload'
    obtain ⟨w, hload⟩ := exists_load_reordered h.symm hclear' hload'
    have hconsistent := (visits_of_load hload).consistent (sound_rootRequests d file exclude) hclear
    obtain ⟨p', hp'⟩ := (hconsistent.resolved hr').resolve_right (hclear.alike hr hr' hname hp)
    have hnames : p.name = p'.name := hp.finds.1.trans (hname.trans hp'.finds.1.symm)
    have hidentity := hconsistent.single hr hr' hp hp' hnames
    rw [Package.identity, Package.identity] at hidentity
    have hcomponents := (Prod.mk.inj (Prod.mk.inj hidentity).2).1
    obtain ⟨file, -, hfile, -, -, -, hdirectory, -⟩ := hp
    obtain ⟨file', -, hfile', -, -, -, hdirectory', -⟩ := hp'
    obtain rfl := Option.some.inj (hfile.symm.trans hfile₁)
    obtain rfl := Option.some.inj (hfile'.symm.trans hfile₂)
    rw [hdirectory, hdirectory'] at hcomponents
    rw [Path.same, decide_eq_true hcomponents] at hdifferent
    cases hdifferent

/-! ### One directory, written in two ways -/

/-- The description of a project that needs a package under two names, in one order or the other. -/
def twiceText (swapped : Bool) : String :=
  if swapped then "\x7b\"dependencies\":\x7b\"a//b\":\"\",\"a/b\":\"\"\x7d\x7d"
  else "\x7b\"dependencies\":\x7b\"a/b\":\"\",\"a//b\":\"\"\x7d\x7d"

/-- The project, whose package needs another one that is installed in it. -/
def twiceDisk (swapped : Bool) : Disk where
  entries := [
    (["node_modules"], .directory),
    (["node_modules", "a"], .directory),
    (["node_modules", "a", "b"], .directory),
    (["node_modules", "a", "b", "node_modules"], .directory),
    (["node_modules", "a", "b", "node_modules", "x"], .directory),
    (["node_modules", "a", "b", "node_modules", "x", "package.json"],
      .file "\x7b\"module\":\"x.js\"\x7d".toUTF8),
    (["node_modules", "a", "b", "package.json"],
      .file "\x7b\"module\":\"m.js\",\"dependencies\":\x7b\"x\":\"\"\x7d\x7d".toUTF8),
    (["package.json"], .file (twiceText swapped).toUTF8)]
  sorted := by cases swapped <;> decide
  rooted := by cases swapped <;> decide

lemma twiceDisk_reordered : (twiceDisk false).Reordered (twiceDisk true) := by
  apply Disk.Reordered.of_entries
  refine .cons ⟨rfl, .refl _⟩ (.cons ⟨rfl, .refl _⟩ (.cons ⟨rfl, .refl _⟩ (.cons ⟨rfl, .refl _⟩
    (.cons ⟨rfl, .refl _⟩ (.cons ⟨rfl, .refl _⟩ (.cons ⟨rfl, .refl _⟩ (.cons ⟨rfl, ?_⟩ .nil)))))))
  exact .description (by with_unfolding_all rfl) (by with_unfolding_all rfl)
    (by with_unfolding_all rfl) (by with_unfolding_all rfl)
    (@Document.Reordered.dependencies [] [] _ _ (.swap ("a//b", .string "") ("a/b", .string "") []))

/-- What it asks for. -/
def twiceRoots : List Request :=
  [⟨"a/b", ⟨"/"⟩⟩, ⟨"a//b", ⟨"/"⟩⟩]

/-- What it needs. -/
def twiceNeeded : List Request :=
  twiceRoots ++ [⟨"x", ⟨"/node_modules/a/b"⟩⟩, ⟨"x", ⟨"/node_modules/a//b"⟩⟩]

/-- Requests that each record a package at first and lead on to requests of their own. -/
def Closed (d : Disk) (exclude : List String) (requests : List Request) : Bool :=
  requests.all fun r => r.start.isAbsolute &&
    match follow d exclude [] r with
    | .ok (.recorded _ more) => more.all (· ∈ requests)
    | _ => false

lemma exists_of_closed {requests : List Request} (h : Closed d exclude requests = true)
    {r : Request} (hr : r ∈ requests) :
    r.start.isAbsolute = true ∧ ∃ p more, Follows d exclude [] r (.recorded p more) ∧
      more ⊆ requests := by
  have hfollow := List.all_eq_true.mp h r hr
  rw [Bool.and_eq_true] at hfollow
  obtain ⟨hstart, hfollow⟩ := hfollow
  split at hfollow
  · next p more hrecorded =>
    refine ⟨hstart, p, more, follow_eq_ok.mp hrecorded, fun q hq => ?_⟩
    simpa using List.all_eq_true.mp hfollow q hq
  · cases hfollow

/-- Nothing but such requests is needed. -/
lemma Needed.mem_of_closed {requests : List Request} (h : Closed d exclude requests = true)
    (hroots : roots ⊆ requests) {r : Request} (hr : Needed d exclude roots r) : r ∈ requests := by
  induction hr with
  | root hr => exact hroots hr
  | @next r q p hr hp hasks ih =>
    obtain ⟨hstart, p', more, hfollows, hmore⟩ := exists_of_closed h ih
    obtain rfl := hp.unique hfollows.offers
    obtain ⟨-, -, -, description, hread, -, rfl⟩ := hfollows.of_recorded hstart
    exact hmore (hasks.mem_requests hread)

lemma unambiguous_twiceDisk :
    Unambiguous (twiceDisk false) ["patch-package"] twiceRoots := by
  have hclosed : Closed (twiceDisk false) ["patch-package"] twiceNeeded = true := by
    decide +kernel
  have hneeded {r : Request} (hr : Needed (twiceDisk false) ["patch-package"] twiceRoots r) :
      r ∈ twiceNeeded :=
    hr.mem_of_closed hclosed (List.subset_append_left _ _)
  have hshort : ∀ r ∈ twiceNeeded, ∀ above ∈ r.start.ancestors,
      (installed r.name above).text.utf8ByteSize ≤ Disk.maxPathLength := by
    decide +kernel
  have hroots : Sound ["patch-package"] twiceRoots := by
    rw [Sound]
    decide
  refine .of_short hroots (fun r r' p _ hr' _ _ => ?_)
    fun r r' hr _ _ _ _ => hshort r (hneeded hr)
  obtain ⟨-, p', more, hfollows, -⟩ := exists_of_closed hclosed (hneeded hr')
  exact hfollows.offers.not_findsNothing

/-- Its package, under one of the two names. -/
def twicePackage (name : String) : Package :=
  ⟨name, (⟨"/node_modules"⟩ : Path).child name, ["**"], [(".", "m.js")]⟩

/-- The package that is installed there. -/
def innerPackage (name : String) : Package :=
  ⟨"x", ((twicePackage name).directory.child "node_modules").child "x", ["**"], [(".", "x.js")]⟩

lemma load_twiceDisk (swapped : Bool) (first second : String)
    (hnames : (first, second) = if swapped then ("a//b", "a/b") else ("a/b", "a//b")) :
    load (twiceDisk swapped) ⟨"package.json"⟩ [] =
      .ok ⟨[twicePackage first, innerPackage first, twicePackage second]⟩ := by
  have hfirst : Follows (twiceDisk swapped) ["patch-package"] [] ⟨first, ⟨"/"⟩⟩
      (.recorded (twicePackage first) [⟨"x", (twicePackage first).directory⟩]) := by
    refine follow_eq_ok.mp ?_
    cases swapped <;> cases hnames <;> with_unfolding_all rfl
  have hinner : Follows (twiceDisk swapped) ["patch-package"] [twicePackage first]
      ⟨"x", (twicePackage first).directory⟩ (.recorded (innerPackage first) []) := by
    refine follow_eq_ok.mp ?_
    cases swapped <;> cases hnames <;> with_unfolding_all rfl
  have hsecond : Follows (twiceDisk swapped) ["patch-package"]
      [twicePackage first, innerPackage first] ⟨second, ⟨"/"⟩⟩
      (.recorded (twicePackage second) [⟨"x", (twicePackage second).directory⟩]) := by
    refine follow_eq_ok.mp ?_
    cases swapped <;> cases hnames <;> with_unfolding_all rfl
  have hagain : Follows (twiceDisk swapped) ["patch-package"]
      [twicePackage first, innerPackage first, twicePackage second]
      ⟨"x", (twicePackage second).directory⟩ .settled := by
    refine follow_eq_ok.mp ?_
    cases swapped <;> cases hnames <;> with_unfolding_all rfl
  have hvisits : Visits (twiceDisk swapped) ["patch-package"] []
      [⟨first, ⟨"/"⟩⟩, ⟨second, ⟨"/"⟩⟩]
      [twicePackage first, innerPackage first, twicePackage second] :=
    (Visits.recorded hfirst (.recorded hinner .nil .nil)
      (.recorded hsecond (.settled hagain .nil) .nil) :)
  have hrequests : requests (defaultExclude ++ [])
      (.object [("dependencies", .object [(first, .string ""), (second, .string "")])])
      ((⟨"/"⟩ : Path).absolutize ⟨"package.json"⟩).directory =
        [⟨first, ⟨"/"⟩⟩, ⟨second, ⟨"/"⟩⟩] := by
    cases swapped <;> cases hnames <;> with_unfolding_all rfl
  refine load_eq_ok.mpr ⟨_, ?_, hrequests ▸ hvisits⟩
  cases swapped <;> cases hnames <;> with_unfolding_all rfl

/-- The packages of a project that names one directory in two ways are found in either order. What
is installed there is recorded under the path of the name that comes first. -/
theorem load_reordered_twice : ∃ v v',
    load (twiceDisk false) ⟨"package.json"⟩ [] = .ok v ∧
      load (twiceDisk true) ⟨"package.json"⟩ [] = .ok v' ∧
      v.packages = [twicePackage "a/b", innerPackage "a/b", twicePackage "a//b"] ∧
      v'.packages = [twicePackage "a//b", innerPackage "a//b", twicePackage "a/b"] ∧
      (v.packages.map Package.identity).Perm (v'.packages.map Package.identity) := by
  have hroots : rootRequests (twiceDisk false) ⟨"package.json"⟩ [] = twiceRoots := by
    decide +kernel
  have hload := load_twiceDisk false "a/b" "a//b" rfl
  have hload' := load_twiceDisk true "a//b" "a/b" rfl
  have hclear : Unambiguous (twiceDisk false) (defaultExclude ++ [])
      (rootRequests (twiceDisk false) ⟨"package.json"⟩ []) := hroots ▸ unambiguous_twiceDisk
  obtain ⟨-, hperm, -⟩ := load_reordered twiceDisk_reordered hclear
  exact ⟨_, _, hload, hload', rfl, rfl, hperm _ _ hload hload'⟩

end Vendor

end AddonBuild
