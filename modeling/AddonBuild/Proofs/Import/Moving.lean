import AddonBuild.Proofs.Import.Route
import AddonBuild.Proofs.Path.Below

/-!
# Moving a script to another tree

A script is read from the source tree and written to the same place of the build tree. The
specifiers that were resolved for its source lead from the written script to the same place of the
build tree.
-/

namespace AddonBuild

namespace Relocator

open Import

/-- What is resolved leads to an absolute path. -/
lemma isAbsolute_of_outcome {present : Path → Bool} {place target : Path}
    (hplace : place.isAbsolute = true) (h : outcome? present place = some (.toward target)) :
    target.isAbsolute = true := by
  rcases outcome?_eq_some h with ⟨heq, -⟩ | ⟨heq, -⟩ | ⟨heq, -⟩
  · cases heq
    exact hplace
  · cases heq
  · cases heq
    exact Path.isAbsolute_withSuffix hplace _

lemma isAbsolute_of_route {r : Relocator} {present : Path → Bool} {source target : Path}
    {specifier : String} {tree : Candidate.Tree} (hbase : r.aliases.base.isAbsolute = true)
    (hsource : source.isAbsolute = true)
    (h : r.route present source specifier = .ok ⟨tree, .toward target⟩) :
    target.isAbsolute = true := by
  rw [route] at h
  split_ifs at h
  · have hplace := Path.absolutize_isAbsolute (Path.directory_of_isAbsolute hsource).1 ⟨specifier⟩
    cases houtcome : outcome? present (source.directory.absolutize ⟨specifier⟩) with
    | none => rw [houtcome] at h; cases h
    | some outcome =>
      rw [houtcome] at h
      cases h
      exact isAbsolute_of_outcome hplace houtcome
  · cases h
  · obtain ⟨-, -, -, -, -, -, -, -, -, -, path, -, -, houtcome⟩ := symbolicRoute_eq_ok h
    exact isAbsolute_of_outcome (Path.absolutize_isAbsolute hbase ⟨path⟩) houtcome

/-- A specifier that was resolved for the source of a script leads from its destination to the same
place below the other root, if it leads from the source to a place below the one root. -/
theorem relocateSpecifier_below {S D f g : Path} (hS : S.isAbsolute = true)
    (hD : D.isAbsolute = true) (hf : f.FileBelow)
    (hg : ∀ c ∈ g.components, ∃ name, c = .name name) :
    (S.join f).directory.moduleSpecifier (S.join g) =
      (D.join f).directory.moduleSpecifier (D.join g) ∧
    ∀ (r : Relocator) (present : Path → Bool) (specifier relocated : String) (target : Path),
      r.aliases.base.isAbsolute = true →
      r.route present (S.join f) specifier = .ok ⟨.source, .toward target⟩ →
      r.relocateSpecifier present (S.join f) (D.join f) specifier = .ok relocated →
      (S.join f).directory.absolutize ⟨relocated⟩ = (S.join g).clean →
      (D.join f).directory.absolutize ⟨relocated⟩ = (D.join g).clean := by
  have hjoin := Path.moduleSpecifier_join hS hD hf hg
  refine ⟨hjoin, ?_⟩
  intro r present specifier relocated target hbase hroute hrelocated hdenoted
  have hsource := Path.isAbsolute_join hS f
  have htarget := isAbsolute_of_route hbase hsource hroute
  have hstart := (Path.directory_of_isAbsolute hsource).1
  obtain rfl : (S.join f).directory.moduleSpecifier target = relocated := by
    rw [relocateSpecifier_eq, hroute] at hrelocated
    exact Except.ok.inj hrelocated
  have hclean : target.clean = (S.join g).clean := by
    rw [← Path.absolutize_moduleSpecifier hstart htarget, hdenoted]
  have hspecifier : (S.join f).directory.moduleSpecifier target =
      (D.join f).directory.moduleSpecifier (D.join g) := by
    rw [← hjoin, ← Path.moduleSpecifier_clean _ htarget, hclean,
      Path.moduleSpecifier_clean _ (Path.isAbsolute_join hS g)]
  rw [hspecifier]
  exact Path.absolutize_moduleSpecifier (Path.directory_of_isAbsolute (Path.isAbsolute_join hD f)).1
    (Path.isAbsolute_join hD g)

/-- A source that an alias stands for is led to from the destination, too. -/
theorem relocateSpecifier_below_alias :
    Path.moduleSpecifier (Path.join ⟨"/s"⟩ ⟨"a/x.ts"⟩).directory (Path.join ⟨"/s"⟩ ⟨"b/y.js"⟩) =
      Path.moduleSpecifier (Path.join ⟨"/d"⟩ ⟨"a/x.ts"⟩).directory
        (Path.join ⟨"/d"⟩ ⟨"b/y.js"⟩) ∧
    (Path.join ⟨"/d"⟩ ⟨"a/x.ts"⟩).directory.absolutize ⟨"../b/y.js"⟩ =
      (Path.join ⟨"/d"⟩ ⟨"b/y.js"⟩).clean := by
  have hf : Path.FileBelow ⟨"a/x.ts"⟩ := ⟨by rfl, by decide, by decide⟩
  have hg : ∀ c ∈ Path.components ⟨"b/y.js"⟩, ∃ name, c = .name name := by
    intro c hc
    have hnames : Path.components ⟨"b/y.js"⟩ = [.name "b", .name "y.js"] := by rfl
    rw [hnames, List.mem_cons, List.mem_singleton] at hc
    rcases hc with rfl | rfl
    · exact ⟨_, rfl⟩
    · exact ⟨_, rfl⟩
  obtain ⟨hspecifier, hdenoted⟩ :=
    relocateSpecifier_below (S := ⟨"/s"⟩) (D := ⟨"/d"⟩) (by rfl) (by rfl) hf hg
  refine ⟨hspecifier, ?_⟩
  exact hdenoted
    (ofAliases ⟨⟨"/s"⟩, [(.wildcard "lib/" "", [⟨.wildcard "b/" "", .source⟩])]⟩)
    (fun p => p.text = "/s/b/y.ts") "lib/y" "../b/y.js" ⟨"/s/b/y.js"⟩ (by rfl) (by rfl) (by rfl)
    (by rfl)

/-- Neither a file above the roots nor a base that is no absolute path has this property. -/
theorem relocateSpecifier_not_below :
    (Path.join ⟨"/s"⟩ ⟨"../x.ts"⟩).directory.moduleSpecifier (Path.join ⟨"/s"⟩ ⟨"y"⟩) ≠
      (Path.join ⟨"/d"⟩ ⟨"../x.ts"⟩).directory.moduleSpecifier (Path.join ⟨"/d"⟩ ⟨"y"⟩) ∧
    (relocateSpecifier (ofAliases default) (fun p => p.text = "/s/y")
        (Path.join ⟨"/s"⟩ ⟨"../x.ts"⟩) (Path.join ⟨"/d"⟩ ⟨"../x.ts"⟩) "./s/y" = .ok "./s/y" ∧
      (Path.join ⟨"/s"⟩ ⟨"../x.ts"⟩).directory.absolutize ⟨"./s/y"⟩ =
        (Path.join ⟨"/s"⟩ ⟨"y"⟩).clean ∧
      (Path.join ⟨"/d"⟩ ⟨"../x.ts"⟩).directory.absolutize ⟨"./s/y"⟩ ≠
        (Path.join ⟨"/d"⟩ ⟨"y"⟩).clean) ∧
    (relocateSpecifier (ofAliases ⟨⟨"."⟩, [(.exact "k", [⟨.exact "y", .source⟩])]⟩)
        (fun p => p.text = "y") (Path.join ⟨"/"⟩ ⟨"x.ts"⟩) (Path.join ⟨"/d"⟩ ⟨"x.ts"⟩) "k" =
          .ok "../y" ∧
      (Path.join ⟨"/"⟩ ⟨"x.ts"⟩).directory.absolutize ⟨"../y"⟩ = (Path.join ⟨"/"⟩ ⟨"y"⟩).clean ∧
      (Path.join ⟨"/d"⟩ ⟨"x.ts"⟩).directory.absolutize ⟨"../y"⟩ ≠
        (Path.join ⟨"/d"⟩ ⟨"y"⟩).clean) := by
  refine ⟨by decide, ⟨by rfl, by rfl, by decide⟩, ⟨by rfl, by rfl, by decide⟩⟩

end Relocator

end AddonBuild
