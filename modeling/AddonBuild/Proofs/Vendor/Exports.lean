import AddonBuild.Proofs.Import.Denotation
import AddonBuild.Proofs.Import.Lookup
import AddonBuild.Proofs.Path.Filling
import AddonBuild.Proofs.Steps
import AddonBuild.Vendor.Staging

/-!
# Importing what a package exports

The specifier of an export leads to the file of the export, where that file is staged. With a
wildcard on either side, it does so for every value, whatever steps the value takes.
-/

namespace AddonBuild

open Pattern (mark Sides fill)

/-! ### Specifiers of exports -/

namespace Package

lemma count_dropLead {lead text : String} (h : mark ∉ lead.toList) :
    ((Text.dropLead? lead text).getD text).toList.count mark = text.toList.count mark := by
  rw [Text.dropLead?]
  split_ifs with hlead
  · obtain ⟨rest, hrest⟩ := Path.startsWith_iff.mp hlead
    rw [Option.getD_some, String.toList_ofList, hrest, List.drop_left, List.count_append,
      List.count_eq_zero.mpr h, Nat.zero_add]
  · rfl

/-- A specifier has the wildcards of its subpath. -/
lemma count_specifier {package : String} (h : mark ∉ package.toList) (subpath : String) :
    (specifier package subpath).toList.count mark = subpath.toList.count mark := by
  have hpackage := List.count_eq_zero.mpr h
  have hinside : (if subpath = whole then "" else
      (Text.dropLead? "./" subpath).getD subpath).toList.count mark =
        subpath.toList.count mark := by
    split_ifs with hwhole
    · rw [hwhole]
      decide
    · exact count_dropLead (by decide)
  rw [specifier, ← hinside]
  generalize (if subpath = whole then "" else
    (Text.dropLead? "./" subpath).getD subpath) = inside
  split_ifs with hempty
  · rw [hpackage, String.isEmpty_iff.mp hempty]
    rfl
  · rw [String.toList_append, String.toList_append, List.count_append, List.count_append,
      hpackage, show "/".toList.count mark = 0 by decide]
    simp

end Package

/-- Subpath and file of an export are free of wildcards, or either has one and the file keeps below
the package. -/
def Importable (item : String × String) : Prop :=
  (mark ∉ item.1.toList ∧ mark ∉ item.2.toList) ∨
  (item.1.toList.count mark = 1 ∧ item.2.toList.count mark = 1 ∧
    Text.startsWith "./" item.2 = true ∧ .up ∉ Path.components ⟨item.2⟩)

namespace Vendor

/-- All exports of the packages, in the order in which their aliases are tried. -/
def exports (v : Vendor) : List (Package × String × String) :=
  v.packages.flatMap fun p => p.exports.map (p, ·)

lemma mem_packages_of_mem_exports {v : Vendor} {e : Package × String × String}
    (h : e ∈ v.exports) : e.1 ∈ v.packages := by
  obtain ⟨p, hp, hitem⟩ := List.mem_flatMap.mp h
  obtain ⟨item, -, rfl⟩ := List.mem_map.mp hitem
  exact hp

lemma exportAlias_eq_ok {root : Path} {p : Package} {item : String × String}
    {entry : String × List Candidate} (h : exportAlias root p item = .ok entry) :
    ∃ pattern,
      Pattern.parse? ((root.child p.name).absolutize ⟨item.2⟩).slashed = some pattern ∧
      entry = (Package.specifier p.name item.1, [⟨pattern, .destination⟩]) := by
  rw [exportAlias] at h
  obtain ⟨pattern, hpattern, hentry⟩ := bind_eq_ok.mp h
  exact ⟨pattern, Pattern.parse_eq_ok.mp (mapError_eq_ok.mp hpattern), (Except.ok.inj hentry).symm⟩

/-- The aliases before and behind that of an export. -/
lemma aliases_eq_ok {v : Vendor} {root : Path} {aliases : Aliases}
    (h : v.aliases root = .ok aliases) {before after : List (Package × String × String)}
    {p : Package} {item : String × String} (hexports : v.exports = before ++ (p, item) :: after) :
    ∃ first pattern last,
      Pattern.parse? ((root.child p.name).absolutize ⟨item.2⟩).slashed = some pattern ∧
      aliases =
        first ++ (Package.specifier p.name item.1, [⟨pattern, .destination⟩]) :: last ∧
      ∀ a ∈ first, ∃ e ∈ before, a.1 = Package.specifier e.1.name e.2.1 := by
  have hall := mapM_eq_ok.mp h
  rw [show v.packages.flatMap (fun p => p.exports.map (p, ·)) = v.exports from rfl,
    hexports] at hall
  obtain ⟨first, entry, last, rfl, hfirst, hentry⟩ := forall₂_append_cons hall
  obtain ⟨pattern, hpattern, rfl⟩ := exportAlias_eq_ok hentry
  refine ⟨first, pattern, last, hpattern, rfl, ?_⟩
  intro a ha
  obtain ⟨e, he, hea⟩ := exists_of_mem_right hfirst ha
  obtain ⟨-, -, rfl⟩ := exportAlias_eq_ok hea
  exact ⟨e, he, rfl⟩

end Vendor

namespace StagingPlan

lemma ofVendor_eq_ok {v : Vendor} {root : Path} {plan : StagingPlan}
    (h : ofVendor v root = .ok plan) :
    ∃ aliases, v.aliases root = .ok aliases ∧
      ((default : AliasTable).addAliases aliases).2 = none ∧
      plan = ⟨v.packages.map (StagingTask.ofPackage root),
        .ofAliases ((default : AliasTable).addAliases aliases).1⟩ := by
  rw [ofVendor] at h
  obtain ⟨aliases, haliases, h⟩ := bind_eq_ok.mp h
  obtain ⟨table, htable, h⟩ := bind_eq_ok.mp h
  refine ⟨aliases, haliases, ?_⟩
  rw [AliasTable.addAll] at htable
  split at htable
  next t ht =>
    cases htable
    rw [ht]
    exact ⟨rfl, (Except.ok.inj h).symm⟩
  next => cases htable

end StagingPlan

namespace Relocator

open Import

/-- A first candidate whose place is there is taken. -/
lemma firstResolved_of_present {present : Path → Bool} {base : Path} {key : Pattern}
    {found : Pattern.Match} {specifier : String} {source destination : Path} {c : Candidate}
    {rest : List Candidate} {text : String} (htext : candidateText key found c = .ok text)
    (hpresent : present (base.absolutize ⟨text⟩) = true) (htree : c.tree = .destination) :
    firstResolved present base key found specifier source destination (c :: rest) =
      .ok (some (destination.directory.moduleSpecifier (base.absolutize ⟨text⟩))) := by
  rw [firstResolved, htext]
  simp only [bind, Except.bind, htree, resolve?, hpresent, if_true]
  rfl

end Relocator

/-! ### Where exports lead -/

/-- What the alias of an export makes of the specifier filled in with a value. -/
lemma exists_candidateText {base : Path} (hbase : base.isAbsolute = true)
    (hmark : mark ∉ base.text.toList) {package : String} (hpackage : mark ∉ package.toList)
    {item : String × String} (hitem : Importable item) {pattern : Pattern}
    (hpattern : Pattern.parse? (base.absolutize ⟨item.2⟩).slashed = some pattern)
    (value : String) :
    ∃ key found text, Pattern.parse? (Package.specifier package item.1) = some key ∧
      key.match? (fill value (Package.specifier package item.1)) = some found ∧
      Relocator.candidateText key found ⟨pattern, .destination⟩ = .ok text ∧
      Path.isAbsolute ⟨text⟩ = true ∧
      Path.clean ⟨text⟩ = base.absolutize ⟨fill value item.2⟩ := by
  have hcount := Package.count_specifier hpackage item.1
  have hslashed : (base.absolutize ⟨item.2⟩).slashed = (base.absolutize ⟨item.2⟩).text :=
    Path.slashed_clean (Path.isAbsolute_join hbase ⟨item.2⟩)
  rw [hslashed] at hpattern
  -- an export without a wildcard is a fixed path; else the captured text goes in on both sides
  rcases hitem with ⟨hsubpath, hfile⟩ | ⟨hsubpath, hfile, hlead, hclimb⟩
  · have hspecifier : mark ∉ (Package.specifier package item.1).toList := by
      rw [← List.count_eq_zero, hcount, List.count_eq_zero]
      exact hsubpath
    have htarget : mark ∉ (base.absolutize ⟨item.2⟩).text.toList := by
      intro h
      rcases Path.mem_text_clean (Path.isAbsolute_join hbase _) h with h | h
      · exact absurd h (by decide)
      · rcases Path.mem_text_join h with h | h | h
        · exact hmark h
        · exact absurd h (by decide)
        · exact hfile h
    obtain rfl : Pattern.exact _ = pattern :=
      Option.some.inj ((Pattern.parse?_of_not_mem htarget).symm.trans hpattern)
    have hkey := Pattern.parse?_of_not_mem hspecifier
    rw [Pattern.fill_of_not_mem hspecifier, Pattern.fill_of_not_mem hfile]
    exact ⟨_, .exact, _, hkey, Pattern.match?_of_not_mem hspecifier hkey, rfl,
      Path.absolutize_isAbsolute hbase _, Path.clean_absolutize hbase _⟩
  · obtain ⟨sides⟩ := Pattern.exists_sides_of_count (hcount.trans hsubpath)
    obtain ⟨fileSides⟩ := Pattern.exists_sides_of_count hfile
    have hway : .up ∉ Path.way ⟨item.2⟩ := by
      rw [Path.components_eq, List.mem_append, not_or] at hclimb
      exact hclimb.2
    obtain ⟨⟨target⟩, hfill⟩ := Path.exists_fill_absolutize hbase hmark fileSides hlead hway
    refine ⟨_, .captured value, fill value (base.absolutize ⟨item.2⟩).text, sides.parse?_eq,
      sides.match?_fill sides.parse?_eq value, ?_, hfill value⟩
    rw [Relocator.candidateText, target.substitute_eq hpattern, target.hasWildcard_eq hpattern]
    rfl

lemma Path.absolutize_of_isAbsolute (base : Path) {p : Path} (h : p.isAbsolute = true) :
    base.absolutize p = p.clean := by
  rw [absolutize, join, if_pos h]

/-- A specifier by which a package is imported leads to the file that the package exports under it,
if that file is to be staged and no earlier key matches. This holds for every script and for every
relocator with the aliases of the plan, whatever their base is. -/
theorem relocateSpecifier_export {v : Vendor} {root : Path} {plan : StagingPlan}
    (hroot : root.isAbsolute = true) (hmark : mark ∉ root.text.toList)
    (hnames : ∀ p ∈ v.packages, mark ∉ p.name.toList)
    (hplan : StagingPlan.ofVendor v root = .ok plan)
    {before after : List (Package × String × String)} {p : Package} {item : String × String}
    (hexports : v.exports = before ++ (p, item) :: after) (hitem : Importable item)
    (value : String)
    (hdot : Relocator.isRelative (fill value (Package.specifier p.name item.1)) = false)
    (hfirst : ∀ e ∈ before, ∀ key,
      Pattern.parse? (Package.specifier e.1.name e.2.1) = some key →
        key.match? (fill value (Package.specifier p.name item.1)) = none)
    {destination : Path} (hdestination : destination.isAbsolute = true) :
    ∃ relocated,
      destination.directory.absolutize ⟨relocated⟩ =
        (root.child p.name).absolutize ⟨fill value item.2⟩ ∧
      ∀ (r : Relocator) (d : Disk) (source : Path),
        r.aliases.entries = plan.relocator.aliases.entries →
        ((root.child p.name).absolutize ⟨fill value item.2⟩).isIn r.planned = true →
        r.isReserved (fill value (Package.specifier p.name item.1)) = false →
        r.relocateSpecifier (r.presence d) source destination
          (fill value (Package.specifier p.name item.1)) = .ok relocated := by
  obtain ⟨aliases, haliases, hvalid, rfl⟩ := StagingPlan.ofVendor_eq_ok hplan
  obtain ⟨first, pattern, last, hpattern, rfl, hkeys⟩ := Vendor.aliases_eq_ok haliases hexports
  have hp : p ∈ v.packages := by
    apply Vendor.mem_packages_of_mem_exports (e := (p, item))
    rw [hexports]
    simp
  have hbase : (root.child p.name).isAbsolute = true := Path.isAbsolute_join hroot _
  have hpackage : mark ∉ (root.child p.name).text.toList := by
    intro h
    rcases Path.mem_text_join h with h | h | h
    · exact hmark h
    · exact absurd h (by decide)
    · exact hnames p hp h
  obtain ⟨key, found, text, hkey, hfound, htext, habsolute, hclean⟩ :=
    exists_candidateText hbase hpackage (hnames p hp) hitem hpattern value
  have hbefore : ∀ a ∈ first, ∀ k, Pattern.parse? a.1 = some k →
      k.match? (fill value (Package.specifier p.name item.1)) = none := by
    intro a ha k hk
    obtain ⟨e, he, hae⟩ := hkeys a ha
    exact hfirst e he k (hae ▸ hk)
  -- no key before this one matches, so its candidate is the first of those that are tried
  obtain ⟨more, hmatch⟩ := AliasTable.firstMatch_addAliases rfl hvalid hbefore hkey hfound
  refine ⟨destination.directory.moduleSpecifier
    ((root.child p.name).absolutize ⟨fill value item.2⟩), ?_, ?_⟩
  · have hplace := Path.absolutize_isAbsolute hbase ⟨fill value item.2⟩
    rw [Path.absolutize_moduleSpecifier (Path.directory_of_isAbsolute hdestination).1 hplace]
    exact Path.clean_absolutize hbase _
  · intro r d source hentries hplanned hreserved
    have hplace : r.aliases.base.absolutize ⟨text⟩ =
        (root.child p.name).absolutize ⟨fill value item.2⟩ :=
      (Path.absolutize_of_isAbsolute _ habsolute).trans hclean
    -- the place is planned, and so it counts as present on every disk
    have hpresent : r.presence d (r.aliases.base.absolutize ⟨text⟩) = true := by
      rw [hplace, Relocator.presence, hplanned, Bool.true_or]
    have hmatch : Relocator.firstMatch _ r.aliases.entries = _ := hentries ▸ hmatch
    rw [Relocator.relocateSpecifier, if_neg (by simp [hdot]), if_neg (by simp [hreserved]),
      Relocator.relocateSymbolic, hmatch]
    simp only [List.singleton_append, Relocator.firstResolved_of_present htext hpresent rfl,
      hplace]

/-- A package that exports itself and, by a wildcard, the scripts of a directory. -/
def wildcardPackage : Package where
  name := "w"
  directory := ⟨"/nm/w"⟩
  files := ["**", "dist/**"]
  exports := [(".", "./index.js"), ("./*", "./dist/*.js")]

/-- A value that climbs out of the directory of the export leads to where it climbs to. -/
theorem relocateSpecifier_export_climbing :
    ∃ relocated, Path.absolutize ⟨"/v/app"⟩ ⟨relocated⟩ = ⟨"/v/w/x/y.js"⟩ ∧
      ∀ (r : Relocator) (d : Disk) (source : Path),
        r.aliases = ⟨⟨"."⟩, [(.exact "w", [⟨.exact "/v/w/index.js", .destination⟩]),
          (.wildcard "w/" "", [⟨.wildcard "/v/w/dist/" ".js", .destination⟩])]⟩ →
        r.reserved = ["@host/"] → r.planned = [⟨"/v/w/x/y.js"⟩] →
        r.relocateSpecifier (r.presence d) source ⟨"/v/app/main.js"⟩ "w/../x/y" =
          .ok relocated := by
  have hspecifier : fill "../x/y" (Package.specifier wildcardPackage.name "./*") = "w/../x/y" := by
    rfl
  have hplace : (Path.child ⟨"/v"⟩ wildcardPackage.name).absolutize ⟨fill "../x/y" "./dist/*.js"⟩ =
      ⟨"/v/w/x/y.js"⟩ := by rfl
  have hplan : StagingPlan.ofVendor ⟨[wildcardPackage]⟩ ⟨"/v"⟩ =
      .ok ⟨[⟨"w", ⟨"/nm/w"⟩, ⟨"/v/w"⟩, ["**", "dist/**"]⟩], .ofAliases ⟨⟨"/nonexistent"⟩,
        [(.exact "w", [⟨.exact "/v/w/index.js", .destination⟩]),
          (.wildcard "w/" "", [⟨.wildcard "/v/w/dist/" ".js", .destination⟩])]⟩⟩ := by rfl
  have hfirst : ∀ key, Pattern.parse? (Package.specifier "w" ".") = some key →
      key.match? "w/../x/y" = none := by
    intro key hkey
    obtain rfl : Pattern.exact "w" = key := Option.some.inj hkey
    rfl
  have hexports : Vendor.exports ⟨[wildcardPackage]⟩ =
      [(wildcardPackage, ".", "./index.js")] ++ (wildcardPackage, "./*", "./dist/*.js") :: [] :=
    rfl
  have hdestination : Path.isAbsolute ⟨"/v/app/main.js"⟩ = true := by rfl
  have h := relocateSpecifier_export (p := wildcardPackage) (by rfl) (by decide) (by decide) hplan
    hexports (.inr ⟨by decide, by decide, by decide, by decide⟩)
    "../x/y" (by decide)
    (by
      intro e he
      obtain rfl := List.mem_singleton.mp he
      rw [hspecifier]
      exact hfirst)
    hdestination
  rw [hspecifier, hplace] at h
  obtain ⟨relocated, hdenoted, hrelocated⟩ := h
  refine ⟨relocated, hdenoted, ?_⟩
  intro r d source haliases hreserved hplanned
  apply hrelocated r d source (by rw [haliases]; rfl)
  · rw [hplanned]
    decide
  · rw [Relocator.isReserved, hreserved]
    decide

end AddonBuild
