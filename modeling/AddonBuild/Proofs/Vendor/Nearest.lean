import AddonBuild.Config
import AddonBuild.Proofs.Path.Climbing
import AddonBuild.Proofs.Path.Straight
import AddonBuild.Proofs.Vendor.Subpaths

/-!
# What is found upwards

An installed package and the root of a project are both searched from a directory upwards. The
searches visit the same directories in the same order, and each ends at the nearest one that has
what it looks for. So what a package has installed itself comes before what is installed further up.
-/

namespace AddonBuild

/-! ### Packages that are missing -/

/-- A package is refused for its format alone. -/
lemma Package.exists_of_exports?_eq_error {package : String} {description : Json} {fault : Fault}
    (h : exports? package description = .error fault) :
    ∃ cause, fault = .unsupportedFormat package cause := by
  have hlisted {listed : Json} (h : (listedExports package listed).map some = .error fault) :
      ∃ cause, fault = .unsupportedFormat package cause := by
    cases listed with
    | string file => cases h
    | object members =>
      rw [listedExports] at h
      rcases mapM_exportTarget package members with ⟨exports, -, hok⟩ | ⟨bad, -, -, herror⟩
      · rw [hok] at h
        cases h
      · rw [herror] at h
        exact ⟨_, (Except.error.inj h).symm⟩
    | null | bool | number | array => exact ⟨_, (Except.error.inj h).symm⟩
  unfold exports? at h
  dsimp only at h
  split at h
  · exact hlisted h
  · cases h
  · split_ifs at h
    · exact hlisted h
    · exact ⟨_, (Except.error.inj h).symm⟩
  · split_ifs at h
    exact ⟨_, (Except.error.inj h).symm⟩

namespace Vendor

open AddonBuild.Path

variable {d : Disk} {package : String} {start : Path} {exclude : List String}
  {known : List Package}

lemma read_ne_dependencyNotFound {file : Path} :
    Document.read d file ≠ .error (.dependencyNotFound package start) := by
  unfold Document.read Document.readAs
  split
  · exact nofun
  · next text htext =>
    cases Json.parse (id text.toUTF8.data.toList) <;> exact nofun

/-- A request fails for want of its package just if the package is not found upwards. -/
lemma follow_eq_dependencyNotFound :
    follow d exclude known ⟨package, start⟩ = .error (.dependencyNotFound package start) ↔
      find? d package start = none := by
  unfold follow
  cases hfind : find? d package start with
  | none => exact ⟨fun _ => rfl, fun _ => rfl⟩
  | some file =>
    refine iff_of_false (fun h => ?_) nofun
    dsimp only at h
    split at h
    · split_ifs at h
      · cases h
      · cases h
    · rcases bind_eq_error.mp h with hread | ⟨description, -, h⟩
      · exact read_ne_dependencyNotFound hread
      · rcases bind_eq_error.mp h with hexports | ⟨found, -, h⟩
        · obtain ⟨cause, hcause⟩ := Package.exists_of_exports?_eq_error hexports
          cases hcause
        · cases found <;> cases h

/-! ### Searches upwards -/

lemma find?_eq_map (d : Disk) (package : String) (start : Path) :
    find? d package start =
      (start.ancestors.find? fun above => d.isFile (installed package above)).map
        (installed package) :=
  List.find?_map

lemma components_installed {above : Path} (habove : above.isAbsolute = true)
    (hpackage : (⟨package⟩ : Path).isAbsolute = false) :
    (installed package above).components = above.components ++
      .name "node_modules" :: ((⟨package⟩ : Path).way ++ [.name "package.json"]) := by
  have hmodules : (above.child "node_modules").isAbsolute = true := isAbsolute_join habove _
  have hinside : ((above.child "node_modules").child package).isAbsolute = true :=
    isAbsolute_join hmodules _
  have hfile : (installed package above).isAbsolute = true := isAbsolute_join hinside _
  have hway : (installed package above).way = above.way ++ [.name "node_modules"] ++
      (⟨package⟩ : Path).way ++ [.name "package.json"] := by
    rw [installed, way_child (by decide), child, way_join _ hpackage, way_child (by decide)]
  rw [components_of_isAbsolute hfile, components_of_isAbsolute habove, hway]
  simp

/-- The two searches from a directory upwards, for the root of a project and for an installed
package. -/
structure SearchesUpwards (d : Disk) (start : Path) (package : String) : Prop where
  /-- The directories in question take the steps of the first one, then one less each time, down to
  the root alone. -/
  chain : start.ancestors.map components = start.components.inits.tail.reverse
  nearest_root : FindsNearest (fun above => d.isFile (above.child "package.json")) start
    (Config.findRoot? d start)
  nearest_package : ∃ nearest,
    FindsNearest (fun above => d.isFile (installed package above)) start nearest ∧
      find? d package start = nearest.map (installed package)
  /-- Where a directory has a package installed. -/
  place : ∀ above ∈ start.ancestors, (installed package above).components = above.components ++
    .name "node_modules" :: ((⟨package⟩ : Path).way ++ [.name "package.json"])
  /-- A request for a package that is missing fails with the directory that it starts from. -/
  missing : ∀ exclude known,
    follow d exclude known ⟨package, start⟩ = .error (.dependencyNotFound package start) ↔
      ∀ above ∈ start.ancestors, d.isFile (installed package above) = false
  /-- What a directory has installed itself comes before all that is installed further up. -/
  shadows : d.isFile (installed package start) = true →
    find? d package start = some (installed package start)

/-- Both searches end at the nearest directory that has what they look for, whatever is on the
disk. -/
theorem searchesUpwards (d : Disk) (hstart : start.isAbsolute = true)
    (hpackage : (⟨package⟩ : Path).isAbsolute = false) : SearchesUpwards d start package where
  chain := map_components_ancestors hstart
  nearest_root := findsNearest _ hstart
  nearest_package := ⟨_, findsNearest _ hstart, find?_eq_map d package start⟩
  place above habove := components_installed (isAbsolute_of_mem_ancestors hstart habove) hpackage
  missing exclude known := by
    rw [follow_eq_dependencyNotFound, find?_eq_map, Option.map_eq_none_iff]
    exact (findsNearest _ hstart).missing
  shadows hfile := by
    rw [find?, ancestors, List.map_cons, List.find?_cons_of_pos hfile]

/-- A package `b` installed for all, and another one installed by `a` for itself. -/
def shadowedDisk : Disk where
  entries := [
    (["node_modules"], .directory),
    (["node_modules", "a"], .directory),
    (["node_modules", "a", "node_modules"], .directory),
    (["node_modules", "a", "node_modules", "b"], .directory),
    (["node_modules", "a", "node_modules", "b", "package.json"], .file "\x7b\x7d".toUTF8),
    (["node_modules", "a", "package.json"], .file "\x7b\x7d".toUTF8),
    (["node_modules", "b"], .directory),
    (["node_modules", "b", "package.json"], .file "\x7b\x7d".toUTF8)]
  sorted := by decide
  rooted := by decide

/-- From within `a` the search ends at its own `b`, and from the root at the other. -/
theorem searchesUpwards_shadowed :
    find? shadowedDisk "b" ⟨"/node_modules/a"⟩ =
        some ⟨"/node_modules/a/node_modules/b/package.json"⟩ ∧
      find? shadowedDisk "b" ⟨"/"⟩ = some ⟨"/node_modules/b/package.json"⟩ ∧
      SearchesUpwards shadowedDisk ⟨"/node_modules/a"⟩ "b" := by
  have hsearches : SearchesUpwards shadowedDisk ⟨"/node_modules/a"⟩ "b" :=
    searchesUpwards shadowedDisk (by decide) (by decide)
  refine ⟨?_, by with_unfolding_all rfl, hsearches⟩
  exact hsearches.shadows (by with_unfolding_all rfl)

end Vendor

end AddonBuild
