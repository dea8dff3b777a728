import AddonBuild.Proofs.Vendor.Spelling
import Mathlib.Data.List.Nodup

/-!
# When the packages of a project can be found

What a project needs can be said without a walk: what it asks for, and what is asked for by the
packages found for that. If no name is ambiguous, a walk comes to an end just when everything that
is needed is found and no name stands for two packages, and then it records the packages found,
under one of the ways in which their directories are written.
-/

namespace AddonBuild

/-- What a package is, in whichever way its directory is written. -/
def Package.identity (p : Package) :
    String × List Path.Component × List String × List (String × String) :=
  (p.name, p.directory.components, p.files, p.exports)

namespace Vendor

variable {d : Disk} {exclude : List String} {roots : List Request}

/-! ### What is needed -/

/-- The package that is found for a dependency, if it offers something at run time. -/
def Offers (d : Disk) (r : Request) (p : Package) : Prop :=
  ∃ file description, find? d r.name r.start = some file ∧
    Document.read d file = .ok description ∧
    Package.exports? r.name description = .ok (some p.exports) ∧
    p.name = r.name ∧ p.directory = file.directory ∧ p.files = Package.treeGlobs p.exports

/-- What is asked for at first or by the packages found for what is needed. -/
inductive Needed (d : Disk) (exclude : List String) (roots : List Request) : Request → Prop where
  | root {r : Request} (hr : r ∈ roots) : Needed d exclude roots r
  | next {r q : Request} {p : Package} (hr : Needed d exclude roots r) (hp : Offers d r p)
      (hq : Asks d exclude p q) : Needed d exclude roots q

lemma Offers.unique {r : Request} {p q : Package} (hp : Offers d r p) (hq : Offers d r q) :
    p = q := by
  obtain ⟨file, description, hfile, hread, hexports, hname, hdirectory, hfiles⟩ := hp
  obtain ⟨file', description', hfile', hread', hexports', hname', hdirectory', hfiles'⟩ := hq
  obtain rfl := Option.some.inj (hfile.symm.trans hfile')
  obtain rfl := Except.ok.inj (hread.symm.trans hread')
  have heq := Option.some.inj (Except.ok.inj (hexports.symm.trans hexports'))
  have hglobs : p.files = q.files := by rw [hfiles, hfiles', heq]
  cases p
  cases q
  simp_all

lemma Offers.not_findsNothing {r : Request} {p : Package} (hp : Offers d r p) :
    ¬ FindsNothing d r := by
  obtain ⟨file, description, hfile, hread, hexports, -⟩ := hp
  rintro ⟨file', description', hfile', hread', hexports'⟩
  obtain rfl := Option.some.inj (hfile.symm.trans hfile')
  obtain rfl := Except.ok.inj (hread.symm.trans hread')
  cases hexports.symm.trans hexports'

lemma Offers.finds {r : Request} {p : Package} (hp : Offers d r p) : Finds d r p := by
  obtain ⟨file, description, hfile, -, -, hname, hdirectory, -⟩ := hp
  exact ⟨hname, file, hfile, hdirectory ▸ Path.same_refl _⟩

lemma Offers.isAbsolute {r : Request} {p : Package} (hstart : r.start.isAbsolute = true)
    (hp : Offers d r p) : p.directory.isAbsolute = true := by
  obtain ⟨file, -, hfile, -, -, -, hdirectory, -⟩ := hp
  exact hdirectory ▸ (Path.directory_of_isAbsolute (isAbsolute_of_find? hstart hfile)).1

lemma Offers.exists_read {r : Request} {p : Package} (hstart : r.start.isAbsolute = true)
    (hp : Offers d r p) : ∃ description, Document.read d p.manifest = .ok description := by
  obtain ⟨file, description, hfile, hread, -, -, hdirectory, -⟩ := hp
  rw [Package.manifest, hdirectory]
  exact ⟨description, read_directory_child hstart hfile hread⟩

lemma Follows.offers {known : List Package} {r : Request} {p : Package} {more : List Request}
    (h : Follows d exclude known r (.recorded p more)) : Offers d r p := by
  cases h with
  | first hfile hnew hread hexports => exact ⟨_, _, hfile, hread, hexports, rfl, rfl, rfl⟩

/-- What a recorded package leads on to is asked for by it. -/
lemma Follows.asks {known : List Package} {r : Request} {p : Package} {more : List Request}
    (h : Follows d exclude known r (.recorded p more)) (hstart : r.start.isAbsolute = true) :
    ∀ q ∈ more, Asks d exclude p q := by
  obtain ⟨-, -, -, description, hread, -, rfl⟩ := h.of_recorded hstart
  exact fun q hq => ⟨description, hread, hq⟩

lemma Needed.isAbsolute (hroots : Sound exclude roots) {r : Request}
    (h : Needed d exclude roots r) : r.start.isAbsolute = true := by
  induction h with
  | root hr => exact (hroots _ hr).1
  | next _ hp hq ih =>
    obtain ⟨description, -, hmem⟩ := hq
    rw [(start_of_mem_requests hmem).1]
    exact hp.isAbsolute ih

/-! ### In whichever way directories are written -/

section Spelled

variable {r r' q : Request} {p p' : Package} (hr : r.start.isAbsolute = true)
  (hr' : r'.start.isAbsolute = true)
include hr hr'

/-- The package found in a directory is the same, in whichever way the directory is written. -/
lemma Finds.exists_offers (hfinds : Finds d r p) (hp : Offers d r' p) :
    ∃ q, Offers d r q ∧ q.identity = p.identity := by
  obtain ⟨file', description, hfile', hread, hexports, hname', hdirectory, hfiles⟩ := hp
  obtain ⟨hname, file, hfile, hsame⟩ := hfinds
  rw [hdirectory] at hsame
  have hread := Disk.read_of_way hread (find?_eq_some hfile).choose_spec.2.2
    (way_eq_of_same_directory hr' hr hfile' hfile hsame)
  have hcomponents : file.directory.components = p.directory.components := by
    rw [hdirectory, of_decide_eq_true hsame]
  refine ⟨⟨r.name, file.directory, Package.treeGlobs p.exports, p.exports⟩, ⟨file, description,
    hfile, hread, ?_, rfl, rfl, rfl⟩, ?_⟩
  · rw [← hname, hname']
    exact hexports
  · rw [Package.identity, Package.identity, hname, hfiles, hcomponents]

/-- Packages that are the same ask for the same, each from its own directory. -/
lemma Asks.of_identity (hp : Offers d r p) (hp' : Offers d r' p') (h : p.identity = p'.identity)
    (hasks : Asks d exclude p q) :
    ∃ q', Asks d exclude p' q' ∧ q'.name = q.name ∧ q.start.same q'.start = true := by
  obtain ⟨description, hread, hmem⟩ := hasks
  obtain ⟨description', hread'⟩ := hp'.exists_read hr'
  have hsame : p.directory.components = p'.directory.components := by
    rw [Package.identity, Package.identity] at h
    exact (Prod.mk.inj (Prod.mk.inj h).2).1
  have hway : p.manifest.way = p'.manifest.way :=
    Path.way_join_congr (Path.way_eq_of_same (hp.isAbsolute hr) (hp'.isAbsolute hr')
      (decide_eq_true hsame)) _
  have hagain := Disk.read_of_way hread (Disk.isFile_of_read hread') hway
  obtain ⟨name, hname, rfl⟩ := List.mem_map.mp hmem
  exact ⟨⟨name, p'.directory⟩, ⟨description, hagain, List.mem_map_of_mem hname⟩, rfl,
    decide_eq_true hsame⟩

variable (hfound : (find? d r.name r.start).map Path.components =
    (find? d r'.name r'.start).map Path.components)
include hfound

lemma exists_find?_of_same {file : Path} (hfile : find? d r.name r.start = some file) :
    ∃ file', find? d r'.name r'.start = some file' ∧ file.way = file'.way := by
  rw [hfile] at hfound
  obtain ⟨file', hfile', hcomponents⟩ := Option.map_eq_some_iff.mp hfound.symm
  exact ⟨file', hfile', Path.way_eq_of_same (isAbsolute_of_find? hr hfile)
    (isAbsolute_of_find? hr' hfile') (decide_eq_true hcomponents.symm)⟩

lemma Finds.of_same (hname : r.name = r'.name) (h : Finds d r p) : Finds d r' p := by
  obtain ⟨hpname, file, hfile, hsame⟩ := h
  obtain ⟨file', hfile', hway⟩ := exists_find?_of_same hr hr' hfound hfile
  exact ⟨hpname.trans hname, file', hfile', Path.same_trans hsame (same_directory_of_way
    (isAbsolute_of_find? hr hfile) (isAbsolute_of_find? hr' hfile') hway)⟩

lemma FindsNothing.of_same (hname : r.name = r'.name) (h : FindsNothing d r) :
    FindsNothing d r' := by
  obtain ⟨file, description, hfile, hread, hexports⟩ := h
  obtain ⟨file', hfile', hway⟩ := exists_find?_of_same hr hr' hfound hfile
  exact ⟨file', description, hfile',
    Disk.read_of_way hread (find?_eq_some hfile').choose_spec.2.2 hway, hname ▸ hexports⟩

end Spelled

/-! ### Ambiguous names -/

/-- No name is needed both where it offers modules and where it offers nothing, and what is found
for a name from a directory does not depend on how the directory is written. A package that offers
nothing is not recorded, so a walk that meets it first would accept its name elsewhere later; and
what is found from a directory may be out of reach behind a path to it that is longer. -/
structure Unambiguous (d : Disk) (exclude : List String) (roots : List Request) : Prop where
  alike : ∀ {r r' : Request} {p : Package}, Needed d exclude roots r →
    Needed d exclude roots r' → r.name = r'.name → Offers d r p → ¬ FindsNothing d r'
  found_alike : ∀ {r r' : Request}, Needed d exclude roots r → Needed d exclude roots r' →
    r.name = r'.name → r.start.same r'.start = true →
    (find? d r.name r.start).map Path.components = (find? d r'.name r'.start).map Path.components

/-- What is found depends on how a directory is written only if it is written in two ways and one of
the paths tried from it is too long. -/
lemma Unambiguous.of_short (hroots : Sound exclude roots)
    (halike : ∀ r r' p, Needed d exclude roots r → Needed d exclude roots r' → r.name = r'.name →
      Offers d r p → ¬ FindsNothing d r')
    (hshort : ∀ r r', Needed d exclude roots r → Needed d exclude roots r' → r.name = r'.name →
      r.start.same r'.start = true → r.start ≠ r'.start → ∀ above ∈ r.start.ancestors,
        (installed r.name above).text.utf8ByteSize ≤ Disk.maxPathLength) :
    Unambiguous d exclude roots where
  alike hr hr' hname hp := halike _ _ _ hr hr' hname hp
  found_alike {r r'} hr hr' hname hsame := by
    by_cases hstart : r.start = r'.start
    · rw [hname, hstart]
    · have hshorts := hshort r r' hr hr' hname hsame hstart
      have hshorts' := hshort r' r hr' hr hname.symm (Path.same_symm hsame) (Ne.symm hstart)
      rw [hname] at hshorts ⊢
      exact find?_same (hr.isAbsolute hroots) (hr'.isAbsolute hroots) hsame hshorts hshorts'

/-! ### What a walk records -/

/-- Every package that is recorded is found for something needed. -/
lemma Visits.offered {known new : List Package} {pending : List Request}
    (h : Visits d exclude known pending new) (hsound : Sound exclude pending)
    (hpending : ∀ r ∈ pending, Needed d exclude roots r) :
    ∀ p ∈ new, ∃ r, Needed d exclude roots r ∧ Offers d r p := by
  induction h with
  | nil => simp
  | settled hr hrest ih =>
    exact ih hsound.tail fun q hq => hpending q (List.mem_cons_of_mem _ hq)
  | @recorded known inner outer r p more rest hr hinner houter ihinner ihouter =>
    have hstart := (hsound r List.mem_cons_self).1
    have hneeded := hpending r List.mem_cons_self
    have hmore : ∀ q ∈ more, Needed d exclude roots q := fun q hq =>
      .next hneeded hr.offers (hr.asks hstart q hq)
    intro q hq
    rcases List.mem_cons.mp hq with rfl | hq
    · exact ⟨r, hneeded, hr.offers⟩
    · exact (List.mem_append.mp hq).elim (ihinner (hr.sound_more hstart) hmore q)
        (ihouter hsound.tail (fun s hs => hpending s (List.mem_cons_of_mem _ hs)) q)

section Visited

variable {packages : List Package} (h : Visits d exclude [] roots packages)
  (hroots : Sound exclude roots) (hclear : Unambiguous d exclude roots)
include h hroots hclear

/-- Whatever is needed is found among the packages recorded, or offers nothing. A walk asks for it
from one directory of those that are the same, and what is found from there is found from all of
them. -/
lemma Visits.finds_of_needed {r : Request} (hr : Needed d exclude roots r) :
    (∃ p ∈ packages, Finds d r p) ∨ FindsNothing d r := by
  have hclosure := h.isClosure hroots
  have hoffered := h.offered hroots fun q hq => Needed.root hq
  -- what the walk has asked for itself, and what is needed besides for another way to write it
  suffices hasked : ∃ s, Needed d exclude roots s ∧ s.name = r.name ∧ r.start.same s.start = true ∧
      ((∃ p ∈ packages, Finds d s p) ∨ FindsNothing d s) by
    obtain ⟨s, hs, hname, hsame, hfound⟩ := hasked
    have hstart := hr.isAbsolute hroots
    have hstart' := hs.isAbsolute hroots
    have halike := (hclear.found_alike hr hs hname.symm hsame).symm
    rcases hfound with ⟨p, hp, hfinds⟩ | hnothing
    · exact .inl ⟨p, hp, hfinds.of_same hstart' hstart halike hname⟩
    · exact .inr (hnothing.of_same hstart' hstart halike hname)
  induction hr with
  | @root r hr => exact ⟨r, .root hr, rfl, Path.same_refl _, hclosure.roots_found r hr⟩
  | @next r q p hr hp hasks ih =>
    have hstart := hr.isAbsolute hroots
    obtain ⟨s, hs, hname, hsame, hfound⟩ := ih
    have hstart' := hs.isAbsolute hroots
    have halike := (hclear.found_alike hr hs hname.symm hsame).symm
    have hfound : ∃ p' ∈ packages, Finds d s p' := by
      refine hfound.resolve_right fun hnothing => hp.not_findsNothing ?_
      exact hnothing.of_same hstart' hstart halike hname
    obtain ⟨p', hp', hfinds⟩ := hfound
    obtain ⟨t, ht, hoffers⟩ := hoffered p' hp'
    have htstart := ht.isAbsolute hroots
    obtain ⟨p'', hp'', hidentity⟩ :=
      (hfinds.of_same hstart' hstart halike hname).exists_offers hstart htstart hoffers
    obtain rfl := hp.unique hp''
    obtain ⟨q', hasks', hname', hsame'⟩ := hasks.of_identity hstart htstart hp hoffers hidentity
    exact ⟨q', .next ht hoffers hasks', hname', hsame', hclosure.found p' hp' q' hasks'⟩

lemma Visits.found_of_needed {r : Request} (hr : Needed d exclude roots r) :
    (∃ p ∈ packages, ∃ q, Offers d r q ∧ q.identity = p.identity) ∨ FindsNothing d r := by
  refine (h.finds_of_needed hroots hclear hr).imp_left ?_
  rintro ⟨p, hp, hfinds⟩
  obtain ⟨s, hs, hoffers⟩ := h.offered hroots (fun q hq => Needed.root hq) p hp
  exact ⟨p, hp, hfinds.exists_offers (hr.isAbsolute hroots) (hs.isAbsolute hroots) hoffers⟩

lemma Visits.exists_mem_of_offers {r : Request} {p : Package} (hr : Needed d exclude roots r)
    (hp : Offers d r p) : ∃ q ∈ packages, p.identity = q.identity := by
  obtain ⟨q, hq, p', hp', hidentity⟩ :=
    (h.found_of_needed hroots hclear hr).resolve_right hp.not_findsNothing
  exact ⟨q, hq, hp.unique hp' ▸ hidentity⟩

lemma Visits.mem_identities_iff
    {i : String × List Path.Component × List String × List (String × String)} :
    i ∈ packages.map Package.identity ↔
      ∃ r p, Needed d exclude roots r ∧ Offers d r p ∧ p.identity = i := by
  rw [List.mem_map]
  constructor
  · rintro ⟨p, hp, rfl⟩
    obtain ⟨r, hr, hoffers⟩ := h.offered hroots (fun q hq => Needed.root hq) p hp
    exact ⟨r, p, hr, hoffers, rfl⟩
  · rintro ⟨r, p, hr, hp, rfl⟩
    obtain ⟨q, hq, hidentity⟩ := h.exists_mem_of_offers hroots hclear hr hp
    exact ⟨q, hq, hidentity.symm⟩

end Visited

/-! ### When a walk ends -/

/-- Everything that is needed is found, and no name stands for two packages. -/
structure Consistent (d : Disk) (exclude : List String) (roots : List Request) : Prop where
  resolved : ∀ {r : Request}, Needed d exclude roots r → (∃ p, Offers d r p) ∨ FindsNothing d r
  single : ∀ {r r' : Request} {p p' : Package}, Needed d exclude roots r →
    Needed d exclude roots r' → Offers d r p → Offers d r' p' → p.name = p'.name →
    p.identity = p'.identity

lemma Visits.consistent {packages : List Package} (h : Visits d exclude [] roots packages)
    (hroots : Sound exclude roots) (hclear : Unambiguous d exclude roots) :
    Consistent d exclude roots where
  resolved hr := by
    refine (h.found_of_needed hroots hclear hr).imp_left ?_
    rintro ⟨-, -, p, hp, -⟩
    exact ⟨p, hp⟩
  single hr hr' hp hp' hname := by
    obtain ⟨q, hq, hidentity⟩ := h.exists_mem_of_offers hroots hclear hr hp
    obtain ⟨q', hq', hidentity'⟩ := h.exists_mem_of_offers hroots hclear hr' hp'
    have hnames : q.name = q'.name :=
      (congrArg Prod.fst hidentity).symm.trans (hname.trans (congrArg Prod.fst hidentity'))
    rw [hidentity, hidentity',
      List.inj_on_of_nodup_map (h.isClosure hroots).nodup hq hq' hnames]

/-- A needed request can be followed when the packages recorded so far are needed too. -/
lemma Consistent.exists_follows (h : Consistent d exclude roots)
    (hclear : Unambiguous d exclude roots) {known : List Package}
    (hknown : ∀ p ∈ known, ∃ r, Needed d exclude roots r ∧ Offers d r p) {r : Request}
    (hr : Needed d exclude roots r) : ∃ step, Follows d exclude known r step := by
  cases hfind : known.find? (·.name = r.name) with
  | some p =>
    have hname : p.name = r.name := by simpa using List.find?_some hfind
    obtain ⟨s, hs, hoffers⟩ := hknown p (List.mem_of_find?_eq_some hfind)
    have hnames : s.name = r.name := hoffers.finds.1.symm.trans hname
    obtain ⟨q, hq⟩ := (h.resolved hr).resolve_right (hclear.alike hs hr hnames hoffers)
    have hidentity := h.single hs hr hoffers hq (hname.trans hq.finds.1.symm)
    rw [Package.identity, Package.identity] at hidentity
    have hcomponents := (Prod.mk.inj (Prod.mk.inj hidentity).2).1
    obtain ⟨-, file, hfile, hsame⟩ := hq.finds
    exact ⟨_, .again hfile hfind (Path.same_trans (decide_eq_true hcomponents) hsame)⟩
  | none =>
    have hnew : ∀ p ∈ known, p.name ≠ r.name := by simpa using hfind
    rcases h.resolved hr with ⟨p, file, description, hfile, hread, hexports, -⟩ |
      ⟨file, description, hfile, hread, hexports⟩
    · exact ⟨_, .first hfile hnew hread hexports⟩
    · exact ⟨_, .absent hfile hnew hread hexports⟩

/-- A walk over needed requests does not fail. -/
lemma Consistent.exists_walk (h : Consistent d exclude roots) (hroots : Sound exclude roots)
    (hclear : Unambiguous d exclude roots) (known : List Package) {pending : List Request}
    (hp : ∀ r ∈ pending, r.name ∈ namesOn d)
    (hknown : ∀ p ∈ known, ∃ r, Needed d exclude roots r ∧ Offers d r p)
    (hpending : ∀ r ∈ pending, Needed d exclude roots r) :
    ∃ packages, walk d exclude known pending hp = .ok packages := by
  fun_induction walk d exclude known pending hp with
  | case1 known => exact ⟨known, rfl⟩
  | case2 known r rest hp hrest fault hstep =>
    obtain ⟨step, hfollows⟩ := h.exists_follows hclear hknown (hpending r List.mem_cons_self)
    cases hstep.symm.trans (follow_eq_ok.mpr hfollows)
  | case3 known r rest hp hrest hstep _ ih =>
    exact ih hknown fun q hq => hpending q (List.mem_cons_of_mem _ hq)
  | case4 known r rest hp hrest p more hstep _ _ _ ih =>
    have hfollows := follow_eq_ok.mp hstep
    have hr := hpending r List.mem_cons_self
    refine ih ?_ ?_
    · intro q hq
      rcases List.mem_append.mp hq with hq | hq
      · exact hknown q hq
      · obtain rfl := List.mem_singleton.mp hq
        exact ⟨r, hr, hfollows.offers⟩
    · intro q hq
      rcases List.mem_append.mp hq with hq | hq
      · exact .next hr hfollows.offers (hfollows.asks (hr.isAbsolute hroots) q hq)
      · exact hpending q (List.mem_cons_of_mem _ hq)

end Vendor

end AddonBuild
